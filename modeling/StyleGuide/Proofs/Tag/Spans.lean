import StyleGuide.Proofs.Tag.Records

/-!
# The lines that a tag takes

A tag is recorded on every line that the registry looks at, if it is of a kind with a handler. It
takes the lines from there up to the next one that starts with an `@` once its decoration is gone
(`RunsFrom`). These are two different tests. Where a tag is recorded on a line that does not start
with an `@`, the lines of the tag belong to the one before it as well (`overlap_iff`). If only lines
that start with an `@` are looked at, then no line belongs to two tags, and if each of them has a
tag with a handler, then the tags divide all lines from the first of them on
(`flatMap_indices_forLines`).
-/

namespace StyleGuide

open Text

/-- The line with this index starts with an `@` once its decoration is gone. -/
def StartsAt (lines : List Text) (k : Nat) : Prop :=
    ∃ line, lines[k]? = some line ∧ Tag.startsTag line = true

namespace Tag

def indices (tag : Tag) : List Nat := List.range' tag.start.toNat (tag.stop + 1 - tag.start).toNat

/-- The tag takes the lines from the given one up to the next one that starts with an `@`, or up to
the last one. -/
structure RunsFrom (lines : List Text) (i : Nat) (tag : Tag) : Prop where
  start : tag.start = i
  stop : ∃ j : Nat, tag.stop = (j : Int) - 1 ∧ i < j ∧ (∀ k, i < k → k < j → ¬StartsAt lines k) ∧
    (StartsAt lines j ∨ j = lines.length)

variable {lines below : List Text} {line : Text} {i i' k : Nat} {tag tag' : Tag}

theorem startsAt_drop_iff : StartsAt (lines.drop i) k ↔ StartsAt lines (i + k) := by
  unfold StartsAt
  rw [List.getElem?_drop]

theorem not_startsAt_of_lt (h : k < lines.findIdx startsTag) : ¬StartsAt lines k := by
  rintro ⟨line, hline, hstarts⟩
  obtain ⟨hk, rfl⟩ := List.getElem?_eq_some_iff.mp hline
  rw [List.not_of_lt_findIdx h] at hstarts
  cases hstarts

/-- The first tag starts at the first line that starts one, if there is any. -/
theorem startsAt_findIdx (lines : List Text) :
    StartsAt lines (lines.findIdx startsTag) ∨ lines.findIdx startsTag = lines.length := by
  have hle : lines.findIdx startsTag ≤ lines.length := List.findIdx_le_length
  rcases Nat.lt_or_eq_of_le hle with hlt | heq
  · exact .inl ⟨_, List.getElem?_eq_getElem hlt, List.findIdx_getElem⟩
  · exact .inr heq

/-- How far a tag goes: up to the first line below that starts with an `@`. -/
theorem read?_eq_some (h : read? i line below = some tag) :
    tag.start = i ∧ tag.stop = i + below.findIdx startsTag := by
  unfold read? at h
  dsimp only at h
  split at h
  · cases h
  · cases h
    refine ⟨rfl, ?_⟩
    have hlength : (below.takeWhile (!startsTag ·)).length = below.findIdx startsTag := by
      rw [List.takeWhile_eq_take_findIdx_not, List.length_take]
      simp [List.findIdx_le_length]
    dsimp only
    rw [hlength]

/-- A tag runs from its line to the next one that starts a tag. -/
theorem runsFrom_of_read? (hline : lines[i]? = some line)
    (h : read? i line (lines.drop (i + 1)) = some tag) :
    RunsFrom lines i tag := by
  obtain ⟨hstart, hstop⟩ := read?_eq_some h
  have hi : i < lines.length := (List.getElem?_eq_some_iff.mp hline).1
  have hend := startsAt_findIdx (lines.drop (i + 1))
  have hbefore : ∀ k < (lines.drop (i + 1)).findIdx startsTag, ¬StartsAt (lines.drop (i + 1)) k :=
    fun k hk => not_startsAt_of_lt hk
  generalize (lines.drop (i + 1)).findIdx startsTag = d at hstop hend hbefore
  rw [startsAt_drop_iff, List.length_drop] at hend
  refine ⟨hstart, i + 1 + d, by omega, by omega, ?_, ?_⟩
  · intro k hik hkd
    have hnot := hbefore (k - (i + 1)) (by omega)
    rwa [startsAt_drop_iff, Nat.add_sub_cancel' hik] at hnot
  · rcases hend with hstarts | hlength
    · exact .inl hstarts
    · exact .inr (by omega)

theorem RunsFrom.mem_indices_iff (h : RunsFrom lines i tag) : k ∈ tag.indices ↔ i ≤ k ∧
    (k : Int) ≤ tag.stop := by
  obtain ⟨hstart, j, hstop, hij, -, -⟩ := h
  rw [indices, List.mem_range'_1]
  omega

/-- A line below belongs to the tag if no line on the way there starts with an `@`. -/
theorem RunsFrom.le_stop_iff (h : RunsFrom lines i tag) (hk : k < lines.length) :
    (k : Int) ≤ tag.stop ↔ ∀ m, i < m → m ≤ k → ¬StartsAt lines m := by
  obtain ⟨-, j, hstop, hij, hbetween, hend⟩ := h
  constructor
  · intro hle m him hmk
    exact hbetween m him (by omega)
  · intro hnone
    by_contra hlt
    rcases hend with hstarts | hlength
    · exact hnone j hij (by omega) hstarts
    · omega

/-- Two tags have lines in common exactly if no line after the first, up to the second one, starts
with an `@`. -/
theorem overlap_iff (h : RunsFrom lines i tag) (h' : RunsFrom lines i' tag') (hlt : i < i')
    (hi' : i' < lines.length) :
    (∃ k, k ∈ tag.indices ∧ k ∈ tag'.indices) ↔ ∀ k, i < k → k ≤ i' → ¬StartsAt lines k := by
  rw [← h.le_stop_iff hi']
  simp only [h.mem_indices_iff, h'.mem_indices_iff]
  obtain ⟨-, j, hstop, hij, -, -⟩ := h'
  constructor
  · rintro ⟨k, ⟨-, hk⟩, hk', -⟩
    omega
  · intro hle
    exact ⟨i', ⟨by omega, hle⟩, by omega, by omega⟩

end Tag

namespace TagReader

variable {r : TagReader} {registry : Registry} {x y : Record} {i : Nat}

/-! ### Records in the order of lines -/

/-- Every record runs from a line that names its kind. -/
theorem exists_runsFrom (h : x ∈ r.records) :
    ∃ i line, r.lines[i]? = some line ∧ names r.registry x.kind line = true ∧
      Tag.RunsFrom r.lines i x.tag := by
  obtain ⟨i, line, hline, hrecord⟩ := mem_records_iff.mp h
  obtain ⟨hnames, -, hread⟩ := record?_eq_some_iff.mp hrecord
  exact ⟨i, line, hline, hnames, Tag.runsFrom_of_read? hline hread⟩

/-- Records start in the order of their lines. -/
theorem pairwise_start (r : TagReader) : r.records.Pairwise fun x y =>
    x.tag.start < y.tag.start := by
  rw [records_eq_filterMap, List.pairwise_filterMap]
  have horder : r.lines.zipIdx.Pairwise fun p q => p.2 < q.2 := by
    apply List.pairwise_map.mp
    rw [List.zipIdx_map_snd]
    exact List.pairwise_lt_range'
  apply horder.imp
  intro p q hlt x hx y hy
  obtain ⟨-, -, hread⟩ := record?_eq_some_iff.mp hx
  obtain ⟨-, -, hread'⟩ := record?_eq_some_iff.mp hy
  rw [(Tag.read?_eq_some hread).1, (Tag.read?_eq_some hread').1]
  omega

/-- If only lines that start with an `@` are looked at, then a tag ends before the next one
starts. -/
theorem pairwise_stop
    (h : ∀ line ∈ r.lines, r.registry.detects line = true → Tag.startsTag line = true) :
    r.records.Pairwise fun x y => x.tag.stop < y.tag.start := by
  apply (pairwise_start r).imp_of_mem
  intro x y hx hy hlt
  obtain ⟨i, -, -, -, hruns⟩ := exists_runsFrom hx
  obtain ⟨i', line', hline', hnames', hruns'⟩ := exists_runsFrom hy
  rw [hruns.start, hruns'.start] at hlt
  rw [hruns'.start]
  have hi' : i' < r.lines.length := (List.getElem?_eq_some_iff.mp hline').1
  have hstarts : StartsAt r.lines i' :=
    ⟨line', hline', h line' (List.mem_of_getElem? hline') (Bool.and_eq_true_iff.mp hnames').1⟩
  by_contra hle
  exact (hruns.le_stop_iff hi').mp (by omega) i' (by omega) (Nat.le_refl i') hstarts

/-! ### Lines divided among tags -/

/-- If the lines that start with an `@` are those with a record, then the tags take all lines from
the first of these on, one tag after the other. -/
theorem flatMap_indices_forLines {ls : List Text} (hnone : ∀ line ∈ ls, Tag.startsTag line = false →
      handler? registry line = none)
    (hsome : ∀ line ∈ ls, Tag.startsTag line = true → ∃ kind, names registry kind line = true ∧
      (registry.handler? kind).isSome = true) (i : Nat) :
    (forLines (fun i line below => (record? registry i line below).toList) i ls).flatMap
      (·.tag.indices) =
      List.range' (i + ls.findIdx Tag.startsTag) (ls.length - ls.findIdx Tag.startsTag) := by
  induction ls generalizing i with
  | nil => rfl
  | cons line ls ih =>
    obtain ⟨hnoneHere, hnone⟩ := List.forall_mem_cons.mp hnone
    obtain ⟨hsomeHere, hsome⟩ := List.forall_mem_cons.mp hsome
    rw [forLines, List.flatMap_append, ih hnone hsome, List.findIdx_cons, List.length_cons]
    cases hstarts : Tag.startsTag line with
    | false =>
      have hrecord : record? registry i line ls = none := by
        rw [record?, hnoneHere hstarts]
        rfl
      rw [hrecord]
      show List.range' (i + 1 + _) _ = List.range' (i + (_ + 1)) (ls.length + 1 - (_ + 1))
      rw [Nat.add_sub_add_right, Nat.add_right_comm, Nat.add_assoc]
    | true =>
      -- The tag takes the lines up to the next `@`, from where on the rest is divided.
      obtain ⟨kind, hnames, hhandler⟩ := hsomeHere hstarts
      obtain ⟨handler, hhandler⟩ := Option.isSome_iff_exists.mp hhandler
      obtain ⟨tag, hread⟩ := exists_read? hnames i ls
      have hrecord : record? registry i line ls = some ⟨kind, handler, tag⟩ :=
        record?_eq_some_iff.mpr ⟨hnames, hhandler, hread⟩
      obtain ⟨hstart, hstop⟩ := Tag.read?_eq_some hread
      have hindices : tag.indices = List.range' i (ls.findIdx Tag.startsTag + 1) := by
        rw [Tag.indices, hstart, hstop]
        congr 1
        omega
      have hle : ls.findIdx Tag.startsTag ≤ ls.length := List.findIdx_le_length
      rw [hrecord]
      show tag.indices ++ [] ++ _ = List.range' i (ls.length + 1)
      rw [List.append_nil, hindices, Nat.add_right_comm, Nat.add_assoc, List.range'_append_1]
      congr 1
      omega

/-- **The lines of tags.** What a block records are its records, each of which takes the lines from
its own up to the next one that starts with an `@`, or to the end. Two of them have lines in common
exactly if no line after the first, up to the second one, starts with an `@`. If the registry looks
only at lines that start with an `@`, then the tags follow one another without common lines, and if
it looks at all of these and has a handler for each of their tags, then the tags divide all lines
from the first of these to the end. -/
theorem records_take_lines (registry : Registry) (options : Options) (block : CommentBlock) :
    let r := block.reader registry options
    let ls := (Text.lines block.text).filter isShown
    r.values = r.records.map (fun x => (x.kind, x.value r)) ∧
      (∀ x ∈ r.records, ∃ i line, ls[i]? = some line ∧ names registry x.kind line = true ∧
        Tag.RunsFrom ls i x.tag) ∧
      r.records.Pairwise (fun x y => x.tag.start < y.tag.start) ∧
      (∀ x ∈ r.records, ∀ y ∈ r.records, x.tag.start < y.tag.start →
        ((∃ k, k ∈ x.tag.indices ∧ k ∈ y.tag.indices) ↔
          ∀ k : Nat, x.tag.start < k → k ≤ y.tag.start → ¬StartsAt ls k)) ∧
      ((∀ line ∈ ls, registry.detects line = true → Tag.startsTag line = true) →
        r.records.Pairwise (fun x y => x.tag.stop < y.tag.start) ∧
          ((∀ line ∈ ls, Tag.startsTag line = true → registry.detects line = true) →
            (∀ line ∈ ls, Tag.startsTag line = true →
              ∃ kind, Tag.nameOf line = kind.word.toList ∧ (registry.handler? kind).isSome = true) →
            r.records.flatMap (·.tag.indices) =
              List.range' (ls.findIdx Tag.startsTag) (ls.length - ls.findIdx Tag.startsTag))) := by
  intro r ls
  refine ⟨values_eq_map_records, fun x hx => exists_runsFrom hx, pairwise_start r, ?_, ?_⟩
  · intro x hx y hy hlt
    obtain ⟨i, -, -, -, hruns⟩ := exists_runsFrom hx
    obtain ⟨i', line', hline', -, hruns'⟩ := exists_runsFrom hy
    have hi' : i' < r.lines.length := (List.getElem?_eq_some_iff.mp hline').1
    rw [hruns.start, hruns'.start] at hlt ⊢
    rw [Tag.overlap_iff hruns hruns' (Int.ofNat_lt.mp hlt) hi']
    simp only [Int.ofNat_lt, Int.ofNat_le]
    rfl
  · intro honly
    refine ⟨pairwise_stop honly, ?_⟩
    intro hall hkinds
    have hnone : ∀ line ∈ ls, Tag.startsTag line = false → handler? registry line = none := by
      intro line hline hstarts
      rw [handler?, if_neg]
      intro hdetects
      rw [honly line hline hdetects] at hstarts
      cases hstarts
    have hsome : ∀ line ∈ ls, Tag.startsTag line = true → ∃ kind, names registry kind line = true ∧
        (registry.handler? kind).isSome = true := by
      intro line hline hstarts
      obtain ⟨kind, hname, hhandler⟩ := hkinds line hline hstarts
      exact ⟨kind, by simp [names, hall line hline hstarts, hname], hhandler⟩
    have hrange := flatMap_indices_forLines hnone hsome 0
    rw [Nat.zero_add] at hrange
    exact hrange

/-- Two tags, the first of which goes on for a line. -/
theorem records_take_lines_two_tags :
    let block : CommentBlock := ⟨"@name a\nb\n@ts".toList, 1, 3, "a.js"⟩
    let registry := Registry.standard.withDetector Tag.startsTag
    let r := block.reader registry .none
    let ls := (Text.lines block.text).filter isShown
    (∀ line ∈ ls, registry.detects line = true ↔ Tag.startsTag line = true) ∧
      (∀ line ∈ ls, Tag.startsTag line = true →
        ∃ kind, Tag.nameOf line = kind.word.toList ∧ (registry.handler? kind).isSome = true) ∧
      r.records.Pairwise (fun x y => x.tag.stop < y.tag.start) ∧
      r.records.flatMap (·.tag.indices) = [0, 1, 2] := by
  intro block registry r ls
  have hls : ls = ["@name a".toList, "b".toList, "@ts".toList] := by decide +kernel
  have hkinds : ∀ line ∈ ls, Tag.startsTag line = true →
      ∃ kind, Tag.nameOf line = kind.word.toList ∧ (registry.handler? kind).isSome = true := by
    intro line hline hstarts
    rw [hls, List.mem_cons, List.mem_cons, List.mem_singleton] at hline
    rcases hline with rfl | rfl | rfl
    · exact ⟨.name, by decide +kernel, rfl⟩
    · cases hstarts
    · exact ⟨.ts, by decide +kernel, rfl⟩
  obtain ⟨-, -, -, -, h⟩ := records_take_lines registry .none block
  obtain ⟨hpairwise, hdivided⟩ := h fun _ _ hdetects => hdetects
  refine ⟨fun _ _ => Iff.rfl, hkinds, hpairwise, ?_⟩
  exact (hdivided (fun _ _ hstarts => hstarts) hkinds).trans (by decide +kernel)

end TagReader

end StyleGuide
