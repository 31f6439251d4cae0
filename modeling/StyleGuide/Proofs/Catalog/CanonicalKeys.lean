import StyleGuide.Proofs.Catalog.Build
import StyleGuide.Proofs.Comment.NormalBlocks
import StyleGuide.Proofs.Outcomes
import StyleGuide.Proofs.Tag.Standard

/-!
# Keys are canonical

All that is documented is found by its key, so a key must not depend on how it is spelled in the
source. The usual handlers squeeze the texts that become keys, and an empty text does not count as
a key. Every other part of the way only passes keys on: in a catalog there is no key but those that
some fragment gives and the default category (`keys_catalogOf`, `keys_filings`).

Together with the texts of blocks, which are normal, this is `canonical_texts`.
-/

namespace StyleGuide

open Text Comment

/-! ### All keys of a catalog -/

/-- The keys of a section: its own, and those of its variants. -/
def Section.keys (s : Section) : List Json := s.key :: s.variants.map (·.key)

def Component.keys (c : Component) : List Json := c.key :: c.sections.flatMap Section.keys

def Category.keys (c : Category) : List Json := c.key :: c.components.flatMap Component.keys

def Catalog.keys (t : Catalog) : List Json := t.categories.flatMap Category.keys

/-- The kinds of tags that give keys. -/
def keyKinds : List TagKind := [.category, .component, .sectionKey, .variation]

/-- The keys that a fragment gives are of a class. -/
def Fragment.KeysAre (P : Json → Prop) (f : Fragment) : Prop :=
  ∀ kind ∈ keyKinds, ∀ k, f.key? kind = some k → P k

section Keys

variable {P : Json → Prop} {key : Json} {fs : List Filing} {blocks : List Fragment}

/-- A section that blocks document together has keys of the class, if the blocks give such keys.
-/
theorem keys_sectionOf (hkey : P key) (hblocks : ∀ f ∈ blocks, f.KeysAre P) :
    ∀ k ∈ (sectionOf key blocks).keys, P k := by
  refine List.forall_mem_cons.mpr ⟨hkey, List.forall_mem_map.mpr ?_⟩
  intro v hv
  obtain ⟨k, hk, rfl⟩ := (mem_grouped _).mp hv
  obtain ⟨f, hf, hfk⟩ := List.mem_filterMap.mp hk
  exact hblocks f hf .variation (by simp [keyKinds]) k hfk

/-- The keys of groups are of a class if those of each group are, whichever items it has. -/
theorem keys_grouped {α β : Type} {keyOf : α → Option Json} {make : Json → List α → β}
    {keys : β → List Json} {xs : List α}
    (h : ∀ x ∈ xs, ∀ k, keyOf x = some k → ∀ ys ⊆ xs, ∀ l ∈ keys (make k ys), P l) :
    ∀ l ∈ (grouped keyOf make xs).flatMap keys, P l := by
  intro l hl
  obtain ⟨b, hb, hl⟩ := List.mem_flatMap.mp hl
  obtain ⟨k, hk, rfl⟩ := (mem_grouped _).mp hb
  obtain ⟨x, hx, hxk⟩ := List.mem_filterMap.mp hk
  exact h x hx k hxk _ List.filter_sublist.subset l hl

theorem keys_componentOf (hkey : P key) (hfs : ∀ x ∈ fs, x.block.KeysAre P) :
    ∀ k ∈ (componentOf key fs).keys, P k := by
  have hblocks : ∀ f ∈ declaringBlocks fs, f.KeysAre P := by
    intro f hf
    obtain ⟨x, hx, rfl⟩ := List.mem_map.mp hf
    exact hfs x (List.mem_filter.mp hx).1
  refine List.forall_mem_cons.mpr ⟨hkey, keys_grouped ?_⟩
  intro f hf k hk blocks hsubset
  apply keys_sectionOf
  · exact hblocks f hf .sectionKey (by simp [keyKinds]) k hk
  · exact fun g hg => hblocks g (hsubset hg)

theorem keys_categoryOf (hkey : P key) (hfs : ∀ x ∈ fs, P x.component ∧ x.block.KeysAre P) :
    ∀ k ∈ (categoryOf key fs).keys, P k := by
  refine List.forall_mem_cons.mpr ⟨hkey, keys_grouped ?_⟩
  intro x hx k hk gs hsubset
  apply keys_componentOf
  · exact Option.some.inj hk ▸ (hfs x hx).1
  · exact fun y hy => (hfs y (hsubset hy)).2

/-- The keys of a catalog are those of the places of its blocks, and those that the blocks give. -/
theorem keys_catalogOf (hfs : ∀ x ∈ fs, P x.category ∧ P x.component ∧ x.block.KeysAre P) :
    ∀ k ∈ (catalogOf fs).keys, P k := by
  apply keys_grouped
  intro x hx k hk gs hsubset
  apply keys_categoryOf
  · exact Option.some.inj hk ▸ (hfs x hx).1
  · exact fun y hy => (hfs y (hsubset hy)).2

/-! ### Keys on the way to their places -/

structure FileContext.KeysAre (P : Json → Prop) (c : FileContext) : Prop where
  category : ∀ k, c.category = some k → P k
  component : ∀ k, c.component = some k → P k

variable {c : FileContext} {f : Fragment} {default : Json}

theorem FileContext.KeysAre.enterFile (h : c.KeysAre P) (file : Json) :
    (c.enterFile file).KeysAre P := by
  unfold FileContext.enterFile
  split
  · exact h
  · exact ⟨by simp, by simp⟩

/-- The category of a declaring block: its own, that of its file, or the default. -/
theorem FileContext.KeysAre.declared (h : c.KeysAre P) (hf : f.KeysAre P) (hdefault : P default) :
    P (((f.key? .category).or c.category).getD default) := by
  cases hk : f.key? .category with
  | some k => exact hf .category (by simp [keyKinds]) k hk
  | none =>
    cases hc : c.category with
    | some k => exact h.category k hc
    | none => exact hdefault

/-- What a fragment declares for its file is again of the class. -/
theorem FileContext.KeysAre.after (h : c.KeysAre P) (hf : f.KeysAre P) (hdefault : P default) :
    (c.after default f).KeysAre P := by
  have hdeclared := h.declared hf hdefault
  unfold FileContext.after
  cases hcomponent : f.key? .component with
  | some component =>
    refine ⟨?_, ?_⟩
    · rintro k ⟨⟩
      exact hdeclared
    · rintro k ⟨⟩
      exact hf .component (by simp [keyKinds]) component hcomponent
  | none =>
    cases hcategory : f.key? .category with
    | some category =>
      refine ⟨?_, by simp⟩
      rintro k ⟨⟩
      exact hf .category (by simp [keyKinds]) category hcategory
    | none => exact h

/-- A fragment is filed under keys of the class. -/
theorem FileContext.KeysAre.filing? (h : c.KeysAre P) (hf : f.KeysAre P) (hdefault : P default)
    {x : Filing} (hx : c.filing? default f = some x) :
    P x.category ∧ P x.component ∧ x.block.KeysAre P := by
  have hdeclared := h.declared hf hdefault
  unfold FileContext.filing? at hx
  cases hcomponent : f.key? .component with
  | some component =>
    rw [hcomponent] at hx
    obtain rfl := Option.some.inj hx
    exact ⟨hdeclared, hf .component (by simp [keyKinds]) component hcomponent, hf⟩
  | none =>
    cases hcategory : f.key? .category with
    | some category => simp [hcomponent, hcategory] at hx
    | none =>
      simp only [hcomponent, hcategory] at hx
      split at hx
      · next category component hc hk =>
        obtain rfl := Option.some.inj hx
        exact ⟨h.category category hc, h.component component hk, hf⟩
      · cases hx

/-- Places are made of keys that blocks give, and of the default category. -/
theorem keys_filings (hdefault : P default) (hblocks : ∀ f ∈ blocks, f.KeysAre P)
    (h : c.KeysAre P) :
    ∀ x ∈ filings default c blocks, P x.category ∧ P x.component ∧ x.block.KeysAre P := by
  induction blocks generalizing c with
  | nil => simp [filings]
  | cons f rest ih =>
    obtain ⟨hf, hrest⟩ := List.forall_mem_cons.mp hblocks
    have hfile := h.enterFile f.file
    refine List.forall_mem_append.mpr ⟨?_, ih hrest (hfile.after hf hdefault)⟩
    intro x hx
    exact hfile.filing? hf hdefault (Option.mem_toList.mp hx)

/-- Fragments with the usual values can be entered, and no key is in the catalog but theirs and
the default category. -/
theorem exists_build_keys (hblocks : ∀ f ∈ blocks, f.isTyped = true ∧ f.KeysAre P)
    (htext : default.isText = true ∧ default.isTruthy = true) (hdefault : P default) :
    ∃ t, Catalog.build default {} blocks = .ok t ∧ ∀ k ∈ t.keys, P k := by
  obtain ⟨hfault, hcatalog⟩ := represents_new.run (fun f hf => (hblocks f hf).1) htext
  refine ⟨catalogOf (filings default {} blocks), ?_, ?_⟩
  · unfold Catalog.build Catalog.extend
    rw [hfault, hcatalog, List.nil_append]
  · exact keys_catalogOf (keys_filings hdefault (fun f hf => (hblocks f hf).2) ⟨by simp, by simp⟩)

end Keys

/-! ### What the usual handlers give -/

/-- Every value is of the type of its kind. -/
theorem isOf_value {kind : TagKind} {content : Text} {context : TagContext}
    (hlibrary : context.options.library.isText = true) :
    ((Handler.ofKind kind).value content context).isOf kind = true := by
  cases kind
  case prop =>
    show Property.isPlain _ = true
    unfold Property.isPlain
    dsimp only
    rw [hlibrary]
    split <;> simp_all [Json.isText, Json.isNull]
  all_goals rfl

theorem isOf_insert {tags : List (TagKind × List TagValue)} {kind : TagKind} {value : TagValue}
    (htags : ∀ t ∈ tags, ∀ v ∈ t.2, TagValue.isOf t.1 v = true) (hvalue : value.isOf kind = true) :
    ∀ t ∈ Fragment.insert kind value tags, ∀ v ∈ t.2, TagValue.isOf t.1 v = true := by
  induction tags with
  | nil => simpa [Fragment.insert] using hvalue
  | cons t tags ih =>
    obtain ⟨ht, hrest⟩ := List.forall_mem_cons.mp htags
    rw [Fragment.insert]
    split
    · next hkind =>
      refine List.forall_mem_cons.mpr ⟨List.forall_mem_append.mpr ⟨ht, ?_⟩, hrest⟩
      exact List.forall_mem_singleton.mpr (hkind ▸ hvalue)
    · exact List.forall_mem_cons.mpr ⟨ht, ih hrest⟩

theorem Fragment.isTyped_iff {f : Fragment} : f.isTyped = true ↔
    f.file.isText = true ∧ ∀ t ∈ f.tags, ∀ v ∈ t.2, TagValue.isOf t.1 v = true := by
  simp only [isTyped, Bool.and_eq_true, List.all_eq_true]

/-- Adding values of the usual types keeps a fragment typed. -/
theorem isTyped_foldl_add {values : List (TagKind × TagValue)} {f : Fragment}
    (hvalues : ∀ v ∈ values, TagValue.isOf v.1 v.2 = true) (hf : f.isTyped = true) :
    (values.foldl (fun f (kind, value) => f.add kind value) f).isTyped = true := by
  induction values generalizing f with
  | nil => exact hf
  | cons v values ih =>
    obtain ⟨hv, hvalues⟩ := List.forall_mem_cons.mp hvalues
    obtain ⟨hfile, htags⟩ := Fragment.isTyped_iff.mp hf
    exact ih hvalues (Fragment.isTyped_iff.mpr ⟨hfile, isOf_insert htags hv⟩)

section Standard

variable {options : Options} {block : CommentBlock}

/-- The usual handlers give values of the usual types. -/
theorem isTyped_fragment (hfile : block.file.isText = true)
    (hlibrary : options.orNone.library.isText = true) :
    (block.reader .standard options).fragment.isTyped = true := by
  apply isTyped_foldl_add
  · intro v hv
    rw [values_reader] at hv
    obtain ⟨t, -, rfl⟩ := List.mem_map.mp hv
    exact isOf_value hlibrary
  · exact Fragment.isTyped_iff.mpr ⟨hfile, by simp⟩

/-- The value is a text that is squeezed and not empty. -/
def Json.IsCanonical (v : Json) : Prop :=
  ∃ t : Text, v = .str (String.ofList t) ∧ t ≠ [] ∧ IsSqueezed t

/-- The keys of a fragment are canonical: they come from handlers that squeeze them. -/
theorem keysAre_fragment : (block.reader .standard options).fragment.KeysAre Json.IsCanonical := by
  intro kind hkind k hk
  have hvalue : ∀ content context, (Handler.ofKind kind).value content context =
      .text (String.ofList (squeeze content)) := by
    simp only [keyKinds, List.mem_cons, List.not_mem_nil, or_false] at hkind
    rcases hkind with rfl | rfl | rfl | rfl <;> exact fun _ _ => rfl
  obtain ⟨hdatum, htruthy⟩ := Option.filter_eq_some_iff.mp hk
  obtain ⟨v, hv, rfl⟩ := Option.map_eq_some_iff.mp hdatum
  have hmem := List.mem_of_mem_head? hv
  rw [all_fragment_of_value hvalue] at hmem
  obtain ⟨content, -, rfl⟩ := List.mem_map.mp hmem
  refine ⟨squeeze content.2, rfl, ?_, isSqueezed_squeeze _⟩
  -- An empty text does not count.
  intro hnil
  rw [hnil] at htruthy
  cases htruthy

end Standard

/-! ### Whole sources -/

theorem isCanonical_defaultCategory : Catalog.defaultCategory.IsCanonical :=
  ⟨"components".toList, rfl, by simp,
    squeeze_eq_self_iff.mp (by decide +kernel)⟩

/-- The fragments of files can be told, are of the usual types, and give canonical keys. -/
theorem exists_fragments (sources : List (String × Text)) :
    ∃ fss, sources.mapM (fun s => Fragment.ofSource .standard .none (.str s.1) s.2) = .ok fss ∧
      ∀ f ∈ fss.flatten, f.isTyped = true ∧ f.KeysAre Json.IsCanonical := by
  have hread : ∀ s ∈ sources, Fragment.ofSource .standard .none (.str s.1) s.2 =
      .ok (((extract (.str s.1) s.2).map fun b => (b.reader .standard .none).fragment).filter
        (!·.isEmpty)) :=
    fun s _ => ofSource_standard rfl (.str s.1) s.2
  refine ⟨_, mapM_eq_ok_iff.mpr (List.forall₂_map_right_iff.mpr (List.forall₂_same.mpr hread)), ?_⟩
  intro f hf
  obtain ⟨fs, hfs, hf⟩ := List.mem_flatten.mp hf
  obtain ⟨s, -, rfl⟩ := List.mem_map.mp hfs
  obtain ⟨b, hb, rfl⟩ := List.mem_map.mp (List.mem_filter.mp hf).1
  have hfile : b.file.isText = true := by
    rw [(isBlockOf_of_mem_extract hb).file_eq]
    rfl
  exact ⟨isTyped_fragment hfile rfl, keysAre_fragment⟩

/-- **Texts are canonical.** To normalize or to squeeze a text again changes nothing, and what is
left as it is are the texts without decoration and blanks at their ends, or with no blanks but
single spaces inside. The blocks of a source have normal texts, which are not empty. Any files can
be read with the standard registry and entered into a catalog under the usual default category; all
keys of the catalog are squeezed texts, which are not empty. -/
theorem canonical_texts :
    (∀ t, Comment.normalize (Comment.normalize t) = Comment.normalize t ∧
      (Comment.normalize t = t ↔ IsNormal t)) ∧
    (∀ t, squeeze (squeeze t) = squeeze t ∧ (squeeze t = t ↔ IsSqueezed t)) ∧
    (∀ file text, ∀ b ∈ extract file text, b.text ≠ [] ∧ Comment.normalize b.text = b.text) ∧
    ∀ sources : List (String × Text), ∃ fss t,
      sources.mapM (fun s => Fragment.ofSource .standard .none (.str s.1) s.2) = .ok fss ∧
      Catalog.build Catalog.defaultCategory {} fss.flatten = .ok t ∧
      ∀ key ∈ t.keys, ∃ s, key = .str (String.ofList s) ∧ s ≠ [] ∧ squeeze s = s ∧ '\n' ∉ s := by
  refine ⟨fun t => ⟨normalize_normalize t, normalize_eq_self_iff⟩,
    fun t => ⟨squeeze_squeeze t, squeeze_eq_self_iff⟩, ?_, ?_⟩
  · intro file text b hb
    have hblock := isBlockOf_of_mem_extract hb
    exact ⟨hblock.text_ne_nil, hblock.normal.normalize_eq⟩
  · intro sources
    obtain ⟨fss, hread, hfragments⟩ := exists_fragments sources
    obtain ⟨t, hbuild, hkeys⟩ := exists_build_keys hfragments ⟨rfl, rfl⟩ isCanonical_defaultCategory
    refine ⟨fss, t, hread, hbuild, ?_⟩
    intro key hkey
    obtain ⟨s, hs, hne, hsqueezed⟩ := hkeys key hkey
    exact ⟨s, hs, hne, hsqueezed.squeeze_eq, hsqueezed.notMem_newline⟩

/-- The key of the component stands on two lines. -/
theorem canonical_texts_two_lines :
    let text : Text := "/* @component a\n b\n@section c */".toList
    (∃ b ∈ extract "a.js" text, b.text ≠ [] ∧ Comment.normalize b.text = b.text) ∧
      ∃ fss t, [("a.js", text)].mapM (fun s => Fragment.ofSource .standard .none (.str s.1) s.2) =
          .ok fss ∧ Catalog.build Catalog.defaultCategory {} fss.flatten = .ok t ∧
        t.keys = ["components", "a b", "c"] ∧
        ∃ s, Json.str "a b" = .str (String.ofList s) ∧ s ≠ [] ∧ squeeze s = s ∧ '\n' ∉ s := by
  intro text
  obtain ⟨-, -, hblocks, hsources⟩ := canonical_texts
  constructor
  · obtain ⟨b, hb⟩ := List.exists_mem_of_ne_nil (extract "a.js" text) (by decide +kernel)
    exact ⟨b, hb, hblocks "a.js" text b hb⟩
  · obtain ⟨fss, t, hread, hbuild, hkeys⟩ := hsources [("a.js", text)]
    have hevaluated : ([("a.js", text)].mapM (fun s =>
        Fragment.ofSource .standard .none (.str s.1) s.2) >>= fun fss =>
          Catalog.build Catalog.defaultCategory {} fss.flatten).toOption.map Catalog.keys =
        some [.str "components", .str "a b", .str "c"] := by decide +kernel
    rw [bind_eq_ok_iff.mpr ⟨fss, hread, hbuild⟩] at hevaluated
    have ht : t.keys = ["components", "a b", "c"] := Option.some.inj hevaluated
    exact ⟨fss, t, hread, hbuild, ht, hkeys "a b" (by rw [ht]; simp)⟩

end StyleGuide
