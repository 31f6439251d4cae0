import Mathlib.Data.List.Basic
import StyleGuide.Proofs.Tag.Standard

/-!
# The tags that a block records

A line of a block is passed over, or it gives a record: the kind of its tag, the handler for that
kind, and the tag as it is read. The values of the block are those of its records
(`values_eq_map_records`), and so are its faults (`faults_eq_filterMap_records`).

Reading goes through the lines from top to bottom, and looks at every line together with all lines
below it. So the records can also be told line by line, from the index of a line alone
(`records_eq_filterMap`).
-/

namespace StyleGuide

open Text Comment

/-! ### Kinds -/

theorem TagKind.ofWord?_eq_some_iff {w : String} {kind : TagKind} : ofWord? w = some kind ↔
    w = kind.word := by
  constructor
  · intro h
    have hfound := List.find?_some h
    exact (beq_iff_eq.mp hfound).symm
  · rintro rfl
    cases kind <;> decide

namespace TagReader

/-- A tag that gives a value: its kind, the handler for the kind, and what is read. -/
structure Record where
  kind : TagKind
  handler : Handler
  tag : Tag

def Record.value (r : TagReader) (x : Record) : TagValue :=
    x.handler.value x.tag.content (r.context x.tag)

def Record.fault? (r : TagReader) (x : Record) : Option ShapeFault :=
    x.handler.fault? (r.context x.tag)

/-- The record of a line with the given index, followed by the further lines. -/
def record? (registry : Registry) (index : Nat) (line : Text) (below : List Text) : Option Record :=
  (handler? registry line).bind fun (kind, handler) =>
    (Tag.read? index line below).map fun tag => ⟨kind, handler, tag⟩

def records (r : TagReader) : List Record :=
  forLines (fun i line below => (record? r.registry i line below).toList) 0 r.lines

/-- The line carries a tag of the kind, and the registry looks at it. -/
def names (registry : Registry) (kind : TagKind) (line : Text) : Bool :=
  registry.detects line && Tag.nameOf line == kind.word.toList

variable {r : TagReader} {registry : Registry} {line : Text} {below : List Text} {i : Nat}
  {x : Record}

theorem handler?_eq_some_iff {kind : TagKind} {handler : Handler} :
    handler? registry line = some (kind, handler) ↔
      names registry kind line = true ∧ registry.handler? kind = some handler := by
  unfold handler? names
  cases hdetects : registry.detects line with
  | false => simp
  | true =>
    rw [if_pos rfl, Option.bind_eq_some_iff]
    constructor
    · rintro ⟨k, hk, h⟩
      obtain ⟨g, hg, heq⟩ := Option.map_eq_some_iff.mp h
      cases heq
      have hword := congrArg String.toList (TagKind.ofWord?_eq_some_iff.mp hk)
      rw [String.toList_ofList] at hword
      exact ⟨by simpa using hword, hg⟩
    · rintro ⟨hword, hhandler⟩
      have hname : Tag.nameOf line = kind.word.toList := by simpa using hword
      refine ⟨kind, TagKind.ofWord?_eq_some_iff.mpr ?_, by rw [hhandler]; rfl⟩
      rw [hname, String.ofList_toList]

/-- A line with a tag of a known kind can be read. -/
theorem exists_read? {kind : TagKind} (h : names registry kind line = true) (i : Nat)
    (below : List Text) :
    ∃ tag, Tag.read? i line below = some tag := by
  have hname : Tag.nameOf line = kind.word.toList := by
    unfold names at h
    simpa using (Bool.and_eq_true_iff.mp h).2
  have hne : ¬(Tag.nameOf line).isEmpty = true := by
    rw [hname]
    cases kind <;> decide
  unfold Tag.read?
  dsimp only
  rw [if_neg hne]
  exact ⟨_, rfl⟩

/-- A line gives a record if it names a kind that has a handler, and a tag can be read there. -/
theorem record?_eq_some_iff : record? registry i line below = some x ↔
    names registry x.kind line = true ∧ registry.handler? x.kind = some x.handler ∧
      Tag.read? i line below = some x.tag := by
  unfold record?
  rw [Option.bind_eq_some_iff]
  constructor
  · rintro ⟨⟨kind, handler⟩, hhandler, h⟩
    obtain ⟨tag, htag, rfl⟩ := Option.map_eq_some_iff.mp h
    obtain ⟨hnames, hregistry⟩ := handler?_eq_some_iff.mp hhandler
    exact ⟨hnames, hregistry, htag⟩
  · rintro ⟨hnames, hregistry, htag⟩
    refine ⟨(x.kind, x.handler), handler?_eq_some_iff.mpr ⟨hnames, hregistry⟩, ?_⟩
    rw [htag]
    rfl

/-! ### Values and faults -/

/-- The values of a block are those of its records. -/
theorem values_eq_map_records : r.values = r.records.map fun x => (x.kind, x.value r) := by
  apply forLines_eq_map
  intro i line _ below
  rw [value?, record?]
  cases handler? r.registry line with
  | none => rfl
  | some h => cases Tag.read? i line below <;> rfl

/-! ### Line by line -/

/-- Going through the lines is the same as looking at every line with its index. -/
theorem forLines_eq_flatMap {α : Type} (f : Nat → Text → List Text → List α) (i : Nat)
    (ls : List Text) :
    forLines f i ls = (ls.zipIdx i).flatMap fun p => f p.2 p.1 (ls.drop (p.2 + 1 - i)) := by
  induction ls generalizing i with
  | nil => rfl
  | cons l ls ih =>
    rw [forLines, ih, List.zipIdx_cons, List.flatMap_cons]
    congr 1
    · rw [Nat.add_sub_cancel_left]
      rfl
    · apply List.flatMap_congr
      intro p hp
      have hle : i + 1 ≤ p.2 := List.le_snd_of_mem_zipIdx hp
      rw [show p.2 + 1 - i = p.2 + 1 - (i + 1) + 1 by omega]
      rfl

theorem records_eq_filterMap :
    r.records = r.lines.zipIdx.filterMap fun p =>
      record? r.registry p.2 p.1 (r.lines.drop (p.2 + 1)) := by
  rw [records, forLines_eq_flatMap, List.filterMap_eq_flatMap_toList]
  rfl

/-- Every record comes from a line. -/
theorem mem_records_iff : x ∈ r.records ↔
    ∃ i line, r.lines[i]? = some line ∧
      record? r.registry i line (r.lines.drop (i + 1)) = some x := by
  rw [records_eq_filterMap, List.mem_filterMap]
  constructor
  · rintro ⟨p, hp, h⟩
    exact ⟨p.2, p.1, List.mem_zipIdx_iff_getElem?.mp hp, h⟩
  · rintro ⟨i, line, hline, h⟩
    exact ⟨(line, i), List.mem_zipIdx_iff_getElem?.mpr hline, h⟩

theorem handler?_of_mem_records (h : x ∈ r.records) :
    r.registry.handler? x.kind = some x.handler := by
  obtain ⟨i, line, -, hrecord⟩ := mem_records_iff.mp h
  exact (record?_eq_some_iff.mp hrecord).2.1

/-- The faults of a block are those of its records. -/
theorem faults_eq_filterMap_records : r.faults = r.records.filterMap (Record.fault? r) := by
  rw [records_eq_filterMap, List.filterMap_filterMap, List.filterMap_eq_flatMap_toList, faults,
    forLines_eq_flatMap]
  apply List.flatMap_congr
  rintro ⟨line, i⟩ -
  dsimp only
  rw [fault?, record?]
  cases handler? r.registry line with
  | none => rfl
  | some h => cases Tag.read? i line (r.lines.drop (i + 1)) <;> rfl

end TagReader

end StyleGuide
