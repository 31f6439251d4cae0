import Mathlib.Data.List.Induction
import StyleGuide.Proofs.Catalog.Groups
import StyleGuide.Proofs.Outcomes
import StyleGuide.Proofs.Tag.Records

/-!
# What a block has of each kind

The values of a kind are what its handler gives for the lines that name the kind, one value for each
such line and in their order (`forall₂_all`). Nothing else has a part in them: not the handlers of
other kinds, and of the settings only the library, which only properties tell
(`fragment_withLibrary`). The kinds stand in the order of their first lines (`kinds_fragment_eq`).
-/

namespace StyleGuide

open Text Comment

/-! ### The library of properties -/

/-- The value with another library, if it is a property. -/
def TagValue.withLibrary (library : Json) : TagValue → TagValue
  | .prop p => .prop { p with library }
  | .data v => .data v

namespace Fragment

def withLibrary (library : Json) (f : Fragment) : Fragment :=
  { f with tags := f.tags.map fun t => (t.1, t.2.map (TagValue.withLibrary library)) }

theorem insert_withLibrary (library : Json) (kind : TagKind) (value : TagValue)
    (tags : List (TagKind × List TagValue)) :
    (insert kind value tags).map (fun t => (t.1, t.2.map (TagValue.withLibrary library))) =
      insert kind (value.withLibrary library)
        (tags.map fun t => (t.1, t.2.map (TagValue.withLibrary library))) := by
  induction tags with
  | nil => rfl
  | cons t tags ih =>
    rw [List.map_cons, insert, insert]
    split
    · simp
    · rw [List.map_cons, ih]

/-- Another library makes no difference but for the properties. -/
theorem foldl_add_withLibrary (library : Json) (vs : List (TagKind × TagValue)) (f : Fragment) :
    (vs.foldl (fun f (kind, value) => f.add kind value) f).withLibrary library =
      (vs.map fun v => (v.1, v.2.withLibrary library)).foldl
        (fun f (kind, value) => f.add kind value) (f.withLibrary library) := by
  induction vs generalizing f with
  | nil => rfl
  | cons v vs ih =>
    rw [List.foldl_cons, ih, List.map_cons, List.foldl_cons]
    congr 1
    show Fragment.mk _ ((insert v.1 v.2 f.tags).map _) = Fragment.mk _ (insert v.1 _ _)
    rw [insert_withLibrary]
    rfl

/-- Kinds stand in the order in which they first occur. -/
theorem kinds_foldl_add_eq (place : Place) (vs : List (TagKind × TagValue)) :
    (vs.foldl (fun f (kind, value) => f.add kind value) ({ toPlace := place } : Fragment)).tags.map
      (·.1) = (vs.map (·.1)).eraseDups := by
  -- By induction from the end, where a kind is added if it has not occurred before.
  induction vs using List.reverseRecOn with
  | nil => rfl
  | append_singleton vs v ih =>
    rw [List.foldl_concat, List.map_append, List.map_singleton, eraseDups_concat]
    show (insert v.1 v.2 _).map (·.1) = _
    rw [kinds_insert, ih]
    simp only [List.mem_eraseDups]

end Fragment

/-- Of the settings the usual handlers look at the library only. -/
theorem value_ofKind_withLibrary (kind : TagKind) (content : Text) (context : TagContext)
    (options : Options) :
    (Handler.ofKind kind).value content { context with options } =
      ((Handler.ofKind kind).value content context).withLibrary options.library := by
  cases kind <;> rfl

namespace TagReader

variable {r : TagReader} {registry registry' : Registry} {options : Options} {block : CommentBlock}
  {kind : TagKind} {handler : Handler} {f : Fragment}

/-! ### Reading -/

/-- A block is read exactly if no record of it has a fault. -/
theorem read_eq_ok_iff : r.read = .ok f ↔ (∀ x ∈ r.records, x.fault? r = none) ∧
    f = r.fragment := by
  have hfaults : r.faults = [] ↔ ∀ x ∈ r.records, x.fault? r = none := by
    rw [faults_eq_filterMap_records, List.filterMap_eq_nil_iff]
  rw [← hfaults]
  unfold read
  split
  · next h => simp [h]
  · next h =>
    simp only [h, Except.ok.injEq, true_and]
    exact eq_comm

/-- The values of a kind come from its records, in the order of the lines. -/
theorem all_fragment_eq (r : TagReader) (kind : TagKind) :
    r.fragment.all kind = (r.records.filter (·.kind = kind)).map (Record.value r) := by
  rw [fragment, Fragment.all_foldl_add, values_eq_map_records, List.filter_map, List.map_map]
  rfl

/-! ### The lines of a kind -/

def occurrences (registry : Registry) (ls : List Text) (kind : TagKind) : List Nat :=
  (ls.zipIdx.filter fun p => names registry kind p.1).map (·.2)

/-- The value is what the handler gives for the tag on the line with the index. -/
def Gives (r : TagReader) (handler : Handler) (i : Nat) (v : TagValue) : Prop :=
  ∃ tag, Tag.readAt? r.lines i = some (some tag) ∧ v = handler.value tag.content (r.context tag)

/-- The kinds with handlers that the lines name, line by line. -/
def handledKinds (registry : Registry) (ls : List Text) : List TagKind :=
  ((ls.filter registry.detects).filterMap fun line =>
    TagKind.ofWord? (String.ofList (Tag.nameOf line))).filter fun kind =>
      (registry.handler? kind).isSome

theorem forall₂_filterMap {α β : Type} {g : α → Option β} {R : α → β → Prop} {l : List α}
    (h : ∀ a ∈ l, ∃ b, g a = some b ∧ R a b) : List.Forall₂ R l (l.filterMap g) := by
  induction l with
  | nil => exact .nil
  | cons a l ih =>
    obtain ⟨⟨b, hb, hR⟩, hl⟩ := List.forall_mem_cons.mp h
    rw [List.filterMap_cons_some hb]
    exact .cons hR (ih hl)

/-- The record of a line, if it is of the kind. -/
theorem filter_record? (hhandler : registry.handler? kind = some handler) (i : Nat) (line : Text)
    (below : List Text) :
    (record? registry i line below).filter (·.kind = kind) =
      if names registry kind line then (Tag.read? i line below).map (⟨kind, handler, ·⟩)
      else none := by
  apply Option.ext
  intro x
  rw [Option.filter_eq_some_iff, record?_eq_some_iff, decide_eq_true_eq]
  split
  · next hnames =>
    rw [Option.map_eq_some_iff]
    constructor
    · rintro ⟨⟨-, hx, htag⟩, rfl⟩
      refine ⟨x.tag, htag, ?_⟩
      rw [Option.some.inj (hhandler.symm.trans hx)]
    · rintro ⟨tag, htag, rfl⟩
      exact ⟨⟨hnames, hhandler, htag⟩, rfl⟩
  · next hnames =>
    constructor
    · rintro ⟨⟨hx, -, -⟩, rfl⟩
      exact absurd hx hnames
    · intro h
      cases h

/-- There is one value for each line that names the kind. -/
theorem forall₂_all (hhandler : r.registry.handler? kind = some handler) :
    List.Forall₂ (r.Gives handler) (occurrences r.registry r.lines kind) (r.fragment.all kind) := by
  rw [all_fragment_eq, records_eq_filterMap, List.filter_filterMap, occurrences,
    List.forall₂_map_left_iff, List.forall₂_map_right_iff]
  simp only [filter_record? hhandler]
  rw [← List.filterMap_filter]
  apply forall₂_filterMap
  rintro ⟨line, i⟩ hp
  obtain ⟨hline, hnames⟩ := List.mem_filter.mp hp
  obtain ⟨tag, htag⟩ := exists_read? hnames i (r.lines.drop (i + 1))
  refine ⟨⟨kind, handler, tag⟩, by rw [htag]; rfl, tag, ?_, rfl⟩
  show r.lines[i]?.map _ = _
  rw [List.mem_zipIdx_iff_getElem?.mp hline]
  exact congrArg some htag

theorem all_eq_nil (hhandler : r.registry.handler? kind = none) : r.fragment.all kind = [] := by
  rw [all_fragment_eq, List.map_eq_nil_iff, List.filter_eq_nil_iff]
  intro x hx hkind
  have hsome := handler?_of_mem_records hx
  rw [decide_eq_true_eq.mp hkind, hhandler] at hsome
  cases hsome

/-- A handler gives one value. -/
theorem rightUnique_gives (r : TagReader) (handler : Handler) :
    Relator.RightUnique (r.Gives handler) := by
  rintro i v v' ⟨tag, htag, rfl⟩ ⟨tag', htag', rfl⟩
  rw [htag, Option.some.injEq, Option.some.injEq] at htag'
  rw [htag']

/-- The values of a kind depend on the lines that are looked at and on the handler of the kind. -/
theorem all_congr {r' : TagReader} (hlines : r'.lines = r.lines) (hcontext : r'.context = r.context)
    (hdetects : r'.registry.detects = r.registry.detects)
    (hhandler : r'.registry.handler? kind = r.registry.handler? kind) :
    r'.fragment.all kind = r.fragment.all kind := by
  cases h : r.registry.handler? kind with
  | none => rw [all_eq_nil h, all_eq_nil (hhandler.trans h)]
  | some handler =>
    have hall := forall₂_all (hhandler.trans h)
    have hnames : names r'.registry kind = names r.registry kind := by
      funext line
      rw [names, names, hdetects]
    have hgives : r'.Gives handler = r.Gives handler := by
      funext i v
      rw [Gives, Gives, hlines, hcontext]
    rw [occurrences, hlines, hnames, hgives] at hall
    exact List.right_unique_forall₂' (rightUnique_gives r handler) hall (forall₂_all h)

/-! ### The order of kinds -/

theorem map_kind_record? (registry : Registry) (i : Nat) (line : Text) (below : List Text) :
    (record? registry i line below).map (·.kind) =
      if registry.detects line then
        (TagKind.ofWord? (String.ofList (Tag.nameOf line))).filter fun kind =>
          (registry.handler? kind).isSome
      else none := by
  apply Option.ext
  intro kind
  rw [Option.map_eq_some_iff]
  constructor
  · rintro ⟨x, hx, rfl⟩
    obtain ⟨hnames, hhandler, -⟩ := record?_eq_some_iff.mp hx
    obtain ⟨hdetects, hname⟩ := Bool.and_eq_true_iff.mp hnames
    rw [if_pos hdetects, Option.filter_eq_some_iff, TagKind.ofWord?_eq_some_iff,
      beq_iff_eq.mp hname, hhandler]
    exact ⟨String.ofList_toList, rfl⟩
  · intro h
    split at h
    · next hdetects =>
      obtain ⟨hword, hhandler⟩ := Option.filter_eq_some_iff.mp h
      obtain ⟨handler, hhandler⟩ := Option.isSome_iff_exists.mp hhandler
      have hname : Tag.nameOf line = kind.word.toList := by
        rw [← TagKind.ofWord?_eq_some_iff.mp hword, String.toList_ofList]
      have hnames : names registry kind line = true := by simp [names, hdetects, hname]
      obtain ⟨tag, htag⟩ := exists_read? hnames i below
      exact ⟨⟨kind, handler, tag⟩, record?_eq_some_iff.mpr ⟨hnames, hhandler, htag⟩, rfl⟩
    · cases h

/-- The kinds of a fragment come in the order of their first lines. -/
theorem kinds_fragment_eq (r : TagReader) :
    r.fragment.tags.map (·.1) = (handledKinds r.registry r.lines).eraseDups := by
  have hkinds : r.records.map (·.kind) = handledKinds r.registry r.lines := by
    rw [records_eq_filterMap, List.map_filterMap, handledKinds, List.filter_filterMap,
      List.filterMap_filter]
    simp only [map_kind_record?]
    conv => rhs; rw [← List.zipIdx_map_fst 0 r.lines, List.filterMap_map]
    rfl
  rw [fragment, Fragment.kinds_foldl_add_eq, values_eq_map_records, List.map_map, ← hkinds]
  rfl

/-! ### Settings -/

section Settings

variable {options' : Options}
  (husual : ∀ kind handler, registry.handler? kind = some handler → handler = .ofKind kind)
include husual

/-- The usual handlers refuse no settings that are an object. -/
theorem read_of_usual (hoptions : options.orNone.fault? = none) :
    (block.reader registry options).read = .ok (block.reader registry options).fragment := by
  refine read_eq_ok_iff.mpr ⟨?_, rfl⟩
  intro x hx
  rw [Record.fault?, husual _ _ (handler?_of_mem_records hx)]
  exact fault?_ofKind fun _ => hoptions

/-- Other settings give the same fragment but for the library of its properties. -/
theorem fragment_withLibrary :
    (block.reader registry options').fragment =
      (block.reader registry options).fragment.withLibrary options'.orNone.library := by
  have hvalues : (block.reader registry options').values =
      (block.reader registry options).values.map fun v =>
        (v.1, v.2.withLibrary options'.orNone.library) := by
    rw [values_eq_map_records, values_eq_map_records, List.map_map]
    apply List.map_congr_left
    intro x hx
    have hcontext : (block.reader registry options').context x.tag =
        { (block.reader registry options).context x.tag with options := options'.orNone } := rfl
    show (x.kind, x.handler.value _ _) = (x.kind, TagValue.withLibrary _ (x.handler.value _ _))
    rw [husual _ _ (handler?_of_mem_records hx), hcontext, value_ofKind_withLibrary]
  rw [fragment, fragment, Fragment.foldl_add_withLibrary, hvalues]
  rfl

end Settings

/-- **Tags accumulate, and kinds do not interfere.** A block is read unless the handler of one of
its tags refuses. Then the values of a kind are those of its handler for the lines that name the
kind, one for each and in their order, and kinds stand in the order of their first lines. So the
values of a kind are the same for all registries with the same test for lines and the same handler
for the kind, whatever the other handlers are, and with the usual handlers other settings change
nothing but the library of properties. -/
theorem read_accumulates (registry : Registry) (options : Options) (block : CommentBlock) :
    let r := block.reader registry options
    let ls := (Text.lines block.text).filter isShown
    ((∃ f, r.read = .ok f) ↔ ∀ x ∈ r.records, x.fault? r = none) ∧
      (∀ f, r.read = .ok f →
        (∀ kind, registry.handler? kind = none → f.all kind = []) ∧
        (∀ kind handler, registry.handler? kind = some handler →
          List.Forall₂ (r.Gives handler) (occurrences registry ls kind) (f.all kind)) ∧
        f.tags.map (·.1) = (handledKinds registry ls).eraseDups) ∧
      (∀ f, r.read = .ok f → ∀ registry' kind, registry'.detects = registry.detects →
        registry'.handler? kind = registry.handler? kind →
        ∀ f', (block.reader registry' options).read = .ok f' → f'.all kind = f.all kind) ∧
      (∀ f, r.read = .ok f → ∀ kind' handler f',
        (block.reader (registry.withHandler kind' handler) options).read = .ok f' →
        ∀ kind, kind ≠ kind' → f'.all kind = f.all kind) ∧
      ((∀ kind handler, registry.handler? kind = some handler → handler = .ofKind kind) →
        ∀ options' : Options, options.orNone.fault? = none → options'.orNone.fault? = none →
          ∃ f, r.read = .ok f ∧
            (block.reader registry options').read =
                .ok (f.withLibrary options'.orNone.library)) := by
  intro r ls
  -- The fourth part is a case of the third, which is proved first.
  have hframe : ∀ f, r.read = .ok f → ∀ registry' kind, registry'.detects = registry.detects →
      registry'.handler? kind = registry.handler? kind →
      ∀ f', (block.reader registry' options).read = .ok f' → f'.all kind = f.all kind := by
    intro f hf registry' kind hdetects hhandler f' hf'
    obtain ⟨-, rfl⟩ := read_eq_ok_iff.mp hf
    obtain ⟨-, rfl⟩ := read_eq_ok_iff.mp hf'
    exact all_congr rfl rfl hdetects hhandler
  refine ⟨?_, ?_, hframe, ?_, ?_⟩
  · constructor
    · rintro ⟨f, hf⟩
      exact (read_eq_ok_iff.mp hf).1
    · intro h
      exact ⟨r.fragment, read_eq_ok_iff.mpr ⟨h, rfl⟩⟩
  · intro f hf
    obtain ⟨-, rfl⟩ := read_eq_ok_iff.mp hf
    exact ⟨fun _ h => all_eq_nil h, fun _ _ h => forall₂_all h, kinds_fragment_eq r⟩
  · intro f hf kind' handler f' hf' kind hne
    exact hframe f hf (registry.withHandler kind' handler) kind rfl (if_neg hne) f' hf'
  · intro husual options' hoptions hoptions'
    refine ⟨_, read_of_usual husual hoptions, ?_⟩
    rw [read_of_usual husual hoptions', fragment_withLibrary husual]

/-- A kind occurs twice, and the kind between has another handler the second time. -/
theorem read_accumulates_two_names :
    let block : CommentBlock := ⟨"@name a\n@ts x\n@name b".toList, 1, 3, "a.js"⟩
    ∃ f f', (block.reader .standard .none).read = .ok f ∧
      (block.reader (Registry.standard.withHandler .ts .text) .none).read = .ok f' ∧
      f.all .name = [.text "a", .text "b"] ∧ f'.all .name = f.all .name ∧ f'.all .ts ≠ f.all .ts ∧
      f.tags.map (·.1) = [.name, .ts] := by
  intro block
  obtain ⟨f, hf⟩ := exists_of_isOk (x := (block.reader .standard .none).read) (by decide +kernel)
  obtain ⟨f', hf'⟩ := exists_of_isOk
    (x := (block.reader (Registry.standard.withHandler .ts .text) .none).read) (by decide +kernel)
  have hnames : (block.reader .standard .none).read.toOption.map (·.all .name) =
      some [.text "a", .text "b"] := by decide +kernel
  have hts : (block.reader (Registry.standard.withHandler .ts .text) .none).read.toOption.map
        (·.all .ts) ≠
      (block.reader .standard .none).read.toOption.map (·.all .ts) := by decide +kernel
  rw [hf] at hnames
  rw [hf, hf'] at hts
  obtain ⟨-, hread, -, hother, -⟩ := read_accumulates .standard .none block
  refine ⟨f, f', hf, hf', Option.some.inj hnames,
    hother f hf .ts .text f' hf' .name (by decide), ?_, ?_⟩
  · intro heq
    exact hts (congrArg some heq)
  · exact (hread f hf).2.2.trans (by decide +kernel)

end TagReader

end StyleGuide
