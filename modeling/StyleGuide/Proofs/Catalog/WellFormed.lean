import StyleGuide.Catalog.Document
import StyleGuide.Proofs.Catalog.Tidy

/-!
# Every state of the builder is well-formed

The builder is folded over fragments with the usual values, from the empty catalog on. The fold
never stops, and whatever it has reached is well-formed: everything has a name, is found by it and
stands in its place, and the component that the builder remembers is there.

Three invariants meet here. The catalog is tidy (`Builder.tidy_step`). It is the catalog of a list
of filings (`Represents.step`), from which the types of its keys can be read off. And its categories
have names, since a block without one takes that of its file or the default.
-/

namespace StyleGuide

/-! ### The types of what is filed -/

/-- The keys of a section are texts, and its examples are examples. -/
structure Section.Typed (s : Section) : Prop where
  key : s.key.isText = true
  variants : ∀ v ∈ s.variants, v.key.isText = true
  examples : s.hasExamples = true

structure Component.Typed (c : Component) : Prop where
  key : c.key.isText = true
  sections : ∀ s ∈ c.sections, s.Typed
  libraries : ∀ t ∈ c.tables, t.library.isText = true
  props : ∀ t ∈ c.tables, ∀ p ∈ t.props, p.isPlain = true

structure Catalog.Typed (t : Catalog) : Prop where
  keys : ∀ c ∈ t.categories, c.key.isText = true
  components : ∀ c ∈ t.categories, ∀ k ∈ c.components, k.Typed

theorem headD_mem {α : Type} {xs : List α} (hxs : xs ≠ []) (default : α) :
    xs.headD default ∈ xs := by
  cases xs with
  | nil => exact absurd rfl hxs
  | cons x xs => exact List.mem_cons_self

theorem Json.isCode_of_isExample {v : Json} (h : v.isExample = true) : v.isCode = true := by
  cases v with
  | code source escaped => rfl
  | _ => exact nomatch h

theorem Fragment.isCode_of_mem_examples {f : Fragment} (hf : f.isTyped = true)
    {flavour : ExampleKind} {e : Json} (he : e ∈ f.examples flavour) : e.isCode = true := by
  obtain ⟨kind, hkind, he⟩ := List.mem_flatMap.mp he
  exact Json.isCode_of_isExample (isExample_of_mem_entries hf hkind he)

theorem hasExampleOrNone_head? {es : List Json} (hes : ∀ e ∈ es, e.isCode = true) :
    hasExampleOrNone es.head? = true := by
  cases es with
  | nil => rfl
  | cons e es => simp [hasExampleOrNone, hes e List.mem_cons_self]

section Blocks

variable {blocks : List Fragment} (hne : blocks ≠ []) (hb : ∀ f ∈ blocks, f.isTyped = true)
include hne hb

/-- The variants of typed blocks have examples in the place of examples. -/
theorem hasExamples_variantOf (key : Json) : (variantOf key blocks).hasExamples = true := by
  have hfirst := hb _ (headD_mem hne default)
  -- The style sheet of a variant is taken by its tag, all others by their flavour.
  have hscss : ∀ e ∈ (blocks.headD default).entries .scss, e.isCode = true := by
    intro e he
    have hsource : TagKind.scss ∈ ExampleKind.scss.sources := List.mem_singleton.mpr rfl
    exact Fragment.isCode_of_mem_examples hfirst (List.mem_flatMap.mpr ⟨.scss, hsource, he⟩)
  have hexample : ∀ flavour,
      hasExampleOrNone ((blocks.headD default).examples flavour).head? = true := by
    intro flavour
    exact hasExampleOrNone_head? fun e he => Fragment.isCode_of_mem_examples hfirst he
  simp only [Variant.hasExamples, variantOf, hexample, hasExampleOrNone_head? hscss, Bool.and_self]

/-- Typed blocks make a typed section. -/
theorem typed_sectionOf {key : Json} (hkey : key.isText = true) : (sectionOf key blocks).Typed := by
  have hgroup : ∀ v ∈ (sectionOf key blocks).variants,
      v.key.isText = true ∧ v.hasExamples = true := by
    intro v hv
    obtain ⟨k, hk, rfl⟩ := (mem_grouped _).mp hv
    obtain ⟨f, hf, hfk⟩ := List.mem_filterMap.mp hk
    refine ⟨(Fragment.isText_key? (hb f hf) (by simp) hfk).1, ?_⟩
    apply hasExamples_variantOf (filter_key_ne_nil hk)
    intro g hg
    exact hb g (List.mem_filter.mp hg).1
  refine ⟨hkey, fun v hv => (hgroup v hv).1, ?_⟩
  have hfirst := hb _ (headD_mem hne default)
  rw [Section.hasExamples, Bool.and_eq_true, List.all_eq_true, List.all_eq_true]
  refine ⟨?_, fun v hv => (hgroup v hv).2⟩
  intro e he
  obtain ⟨flavour, -, he⟩ := List.mem_filterMap.mp he
  obtain ⟨v, hv, rfl⟩ := Option.map_eq_some_iff.mp he
  exact Fragment.isCode_of_mem_examples hfirst (List.mem_of_mem_head? hv)

end Blocks

theorem mem_of_mem_tableOf {library : Json} {ps : List Property} {p : Property}
    (hp : p ∈ (tableOf library ps).props) : p ∈ ps := by
  simp only [tableOf, mem_grouped] at hp
  obtain ⟨name, hname, rfl⟩ := hp
  exact (List.mem_filter.mp (headD_mem (filter_key_ne_nil hname) default)).1

theorem typed_componentOf {fs : List Filing} (hfs : ∀ x ∈ fs, x.isTyped = true) {key : Json}
    (hkey : key.isText = true) : (componentOf key fs).Typed where
  key := hkey
  sections := by
    intro s hs
    obtain ⟨k, hk, rfl⟩ := (mem_grouped _).mp hs
    have hblocks := isTyped_of_mem_declaringBlocks hfs
    obtain ⟨f, hf, hfk⟩ := List.mem_filterMap.mp hk
    apply typed_sectionOf (filter_key_ne_nil hk)
    · intro g hg
      exact hblocks g (List.mem_filter.mp hg).1
    · exact (Fragment.isText_key? (hblocks f hf) (by simp) hfk).1
  libraries := by
    intro t ht
    obtain ⟨library, hlibrary, rfl⟩ := (mem_grouped _).mp ht
    obtain ⟨p, hp, hplibrary⟩ := List.mem_filterMap.mp hlibrary
    exact isText_tableKey? (isPlain_of_mem_propsOf hfs p hp) hplibrary
  props := by
    intro t ht p hp
    obtain ⟨library, -, rfl⟩ := (mem_grouped _).mp ht
    exact isPlain_of_mem_propsOf hfs p (List.mem_filter.mp (mem_of_mem_tableOf hp)).1

/-- Typed blocks make a typed catalog. -/
theorem typed_catalogOf {fs : List Filing} (hfs : ∀ x ∈ fs, x.isTyped = true) :
    (catalogOf fs).Typed where
  keys := by
    intro c hc
    obtain ⟨_, hk, rfl⟩ := (mem_grouped _).mp hc
    obtain ⟨x, hx, ⟨⟩⟩ := List.mem_filterMap.mp hk
    exact (Filing.isTyped_iff.mp (hfs x hx)).1
  components := by
    intro c hc k hk
    obtain ⟨_, -, rfl⟩ := (mem_grouped _).mp hc
    obtain ⟨_, hmem, rfl⟩ := (mem_grouped _).mp hk
    obtain ⟨x, hx, ⟨⟩⟩ := List.mem_filterMap.mp hmem
    apply typed_componentOf
    · intro y hy
      exact hfs y (List.mem_filter.mp (List.mem_filter.mp hy).1).1
    · exact (Filing.isTyped_iff.mp (hfs x (List.mem_filter.mp hx).1)).2.1

/-! ### The names of categories -/

/-- Every category has a name. -/
def Catalog.Named (t : Catalog) : Prop := ∀ c ∈ t.categories, c.key.isTruthy = true

theorem Builder.isTruthy_categoryFor {default : Json} (hdefault : default.isTruthy = true)
    (b : Builder) (f : Fragment) : (b.categoryFor default f).isTruthy = true := by
  unfold categoryFor
  cases hf : f.key? .category with
  | some category => exact Fragment.isTruthy_key? hf
  | none =>
    show (if b.category.isTruthy then b.category else default).isTruthy = true
    split
    · next hb => exact hb
    · exact hdefault

/-- A category is entered under a name only. -/
theorem Builder.named_step {default : Json} (hdefault : default.isTruthy = true) {b : Builder}
    (h : b.catalog.Named) (f : Fragment) : (b.step default f).catalog.Named := by
  rcases catalog_step_cases default b f with ⟨k, -, hstep⟩ | ⟨category, k, hstep⟩ | hstep
  · rw [hstep]
    unfold Catalog.Named Catalog.enter Catalog.modifyCategory
    rw [modifyCategory_eq_upsert]
    exact forall_mem_upsert h (fun c hc _ => h c hc) (isTruthy_categoryFor hdefault _ f)
  · rw [hstep]
    intro c' hc'
    obtain ⟨c, hc, rfl⟩ := List.mem_map.mp hc'
    split
    · exact h c hc
    · exact h c hc
  · rw [hstep]
    exact h

/-! ### Well-formed states -/

/-- The value is a text that is not empty. -/
def Json.IsName (v : Json) : Prop := ∃ s : String, v = .str s ∧ s ≠ ""

theorem Json.isName_of_isText {v : Json} (htext : v.isText = true) (htruthy : v.isTruthy = true) :
    v.IsName := by
  obtain ⟨s, rfl⟩ := exists_str_of_isText htext
  refine ⟨s, rfl, ?_⟩
  rintro rfl
  exact nomatch htruthy

/-- A section has a name, and so have its variants, each its own. -/
structure Section.WellFormed (s : Section) : Prop where
  key : s.key.IsName
  variantKeys : ∀ v ∈ s.variants, v.key.IsName
  variants : (s.variants.map (·.key)).Nodup

/-- A table has at least one property; all are of its library, each has a name of its own. -/
structure PropertyTable.WellFormed (t : PropertyTable) : Prop where
  nonempty : t.props ≠ []
  library : ∀ p ∈ t.props, p.library = t.library
  names : ∀ p ∈ t.props, p.name.IsName
  props : (t.props.map (·.name)).Nodup

/-- A component has a name, and its sections and tables are found by theirs. -/
structure Component.WellFormed (c : Component) : Prop where
  key : c.key.IsName
  sections : (c.sections.map (·.key)).Nodup
  wellFormedSections : ∀ s ∈ c.sections, s.WellFormed
  tables : (c.tables.map (·.library)).Nodup
  wellFormedTables : ∀ t ∈ c.tables, t.WellFormed

/-- A category has a name and at least one component, and each is found by its name. -/
structure Category.WellFormed (c : Category) : Prop where
  key : c.key.IsName
  nonempty : c.components ≠ []
  components : (c.components.map (·.key)).Nodup
  stored : ∀ k ∈ c.components, c.component? k.key = some k
  wellFormedComponents : ∀ k ∈ c.components, k.WellFormed

structure Catalog.WellFormed (t : Catalog) : Prop where
  categories : (t.categories.map (·.key)).Nodup
  stored : ∀ c ∈ t.categories, t.category? c.key = some c
  wellFormedCategories : ∀ c ∈ t.categories, c.WellFormed

/-- The catalog is well-formed. If the builder remembers a component, then it remembers its category
too, and finds the component when it looks for it. -/
structure Builder.WellFormed (b : Builder) : Prop where
  catalog : b.catalog.WellFormed
  context : b.component ≠ .null → b.category.IsName ∧ b.component.IsName ∧
    ∃ c, b.catalog.component? b.category b.component = some c ∧ b.target? = some c

/-- Keys of which no two are the same are different. -/
theorem DistinctBy.nodup {α : Type} {key : α → Json} {xs : List α} (h : DistinctBy key xs) :
    (xs.map key).Nodup := by
  apply List.pairwise_map.mpr
  apply List.Pairwise.imp _ h
  intro x y hxy heq
  rw [heq, Json.same_refl] at hxy
  exact nomatch hxy

/-- For a section, tidy and typed is well-formed. -/
theorem Section.Tidy.wellFormed {s : Section} (h : s.Tidy) (ht : s.Typed) : s.WellFormed where
  key := Json.isName_of_isText ht.key h.key
  variantKeys v hv := Json.isName_of_isText (ht.variants v hv) (h.variantKeys v hv)
  variants := h.variants.nodup

theorem PropertyTable.Tidy.wellFormed {t : PropertyTable} (h : t.Tidy)
    (hlibrary : t.library.isText = true) (hprops : ∀ p ∈ t.props, p.isPlain = true) :
    t.WellFormed where
  nonempty := h.nonempty
  library := by
    intro p hp
    have hsame := h.library p hp
    rw [Json.same_of_isText hlibrary (Property.isPlain_library (hprops p hp))] at hsame
    exact (of_decide_eq_true hsame).symm
  names p hp := Json.isName_of_isText (Property.isPlain_name (hprops p hp)) (h.names p hp)
  props := h.props.nodup

theorem Component.Tidy.wellFormed {c : Component} (h : c.Tidy) (ht : c.Typed) : c.WellFormed where
  key := Json.isName_of_isText ht.key h.key
  sections := h.sections.nodup
  wellFormedSections s hs := (h.tidySections s hs).wellFormed (ht.sections s hs)
  tables := DistinctBy.nodup h.tables
  wellFormedTables t htable :=
    (h.tidyTables t htable).wellFormed (ht.libraries t htable) (ht.props t htable)

/-- A tidy and typed catalog whose categories have names is well-formed. -/
theorem Catalog.Tidy.wellFormed {t : Catalog} (h : t.Tidy) (ht : t.Typed) (hn : t.Named) :
    t.WellFormed where
  categories := h.categories.nodup
  stored _ hc := h.categories.find?_key hc
  wellFormedCategories c hc :=
    have hcategory := h.tidyCategories c hc
    { key := Json.isName_of_isText (ht.keys c hc) (hn c hc)
      nonempty := hcategory.nonempty
      components := hcategory.components.nodup
      stored := fun _ hk => hcategory.components.find?_key hk
      wellFormedComponents := fun k hk =>
        (hcategory.tidyComponents k hk).wellFormed (ht.components c hc k hk) }

/-! ### Steps and runs -/

/-- What all states of the builder have in common that are reached with usual values. -/
structure Builder.Reached (b : Builder) (c : FileContext) (fs : List Filing) : Prop
    extends Represents b c fs where
  tidy : b.catalog.Tidy
  named : b.catalog.Named

namespace Builder.Reached

variable {b : Builder} {c : FileContext} {fs : List Filing} {default : Json}

theorem typed_catalog (h : b.Reached c fs) : b.catalog.Typed := by
  rw [h.catalog]
  exact typed_catalogOf h.typed

/-- Whatever a builder reaches is well-formed. -/
theorem wellFormed (h : b.Reached c fs) : b.WellFormed where
  catalog := h.tidy.wellFormed h.typed_catalog h.named
  context := by
    intro hnull
    -- The builder remembers what the walk remembers, and the walk has passed the component.
    cases hcomponent : c.component with
    | none => exact absurd (h.component.trans (by rw [hcomponent]; rfl)) hnull
    | some component =>
      obtain ⟨category, hcategory, -⟩ := h.occupied component hcomponent
      have hcomponentName := h.componentText component hcomponent
      have hcategoryName := h.categoryText category hcategory
      obtain ⟨k, hk⟩ := Option.isSome_iff_exists.mp (h.isSome_target? hcomponent)
      obtain rfl : b.component = component := h.component.trans (by rw [hcomponent]; rfl)
      obtain rfl : b.category = category := h.category.trans (by rw [hcategory]; rfl)
      refine ⟨Json.isName_of_isText hcategoryName.1 hcategoryName.2,
        Json.isName_of_isText hcomponentName.1 hcomponentName.2, k, ?_, hk⟩
      rw [Builder.target?, hcategoryName.2, hcomponentName.2] at hk
      exact hk

/-- **One step.** A fragment with the usual values can be entered, and the builder is in its
file. -/
theorem apply (h : b.Reached c fs) {f : Fragment} (hf : f.isTyped = true)
    (hdefault : default.isText = true ∧ default.isTruthy = true) :
    ∃ b' c' fs', b.apply default f = .ok b' ∧ b'.Reached c' fs' ∧ b'.file = f.file := by
  have hstep := h.toRepresents.step hf hdefault
  refine ⟨b.step default f, _, _, ?_, ⟨hstep, ?_, ?_⟩, ?_⟩
  · rw [Builder.apply, h.fault?_eq_none hf hdefault]
  · exact tidy_step h.tidy default f
  · exact named_step hdefault.2 h.named f
  · have hfile : ((c.enterFile f.file).after default f).file = some f.file := by
      unfold FileContext.after FileContext.enterFile
      split <;> split <;> simp_all
    rw [hstep.file, hfile]
    rfl

/-- **A whole run.** -/
theorem foldlM (h : b.Reached c fs) {blocks : List Fragment}
    (hblocks : ∀ f ∈ blocks, f.isTyped = true)
    (hdefault : default.isText = true ∧ default.isTruthy = true) :
    ∃ b' c' fs', blocks.foldlM (Builder.apply default) b = .ok b' ∧ b'.Reached c' fs' ∧
      b'.file = (blocks.getLast?.map (·.file)).getD b.file := by
  induction blocks generalizing b c fs with
  | nil => exact ⟨b, c, fs, rfl, h, rfl⟩
  | cons f rest ih =>
    obtain ⟨hf, hrest⟩ := List.forall_mem_cons.mp hblocks
    obtain ⟨b₁, c₁, fs₁, happly, h₁, hfile₁⟩ := h.apply hf hdefault
    obtain ⟨b₂, c₂, fs₂, hfold, h₂, hfile₂⟩ := ih h₁ hrest
    refine ⟨b₂, c₂, fs₂, ?_, h₂, ?_⟩
    · rw [List.foldlM_cons, happly]
      exact hfold
    · rw [hfile₂, List.getLast?_cons]
      cases rest.getLast? with
      | none => exact hfile₁
      | some g => rfl

end Builder.Reached

theorem Json.isText_and_isTruthy {s : String} (hs : s ≠ "") :
    Json.isText (.str s) = true ∧ Json.isTruthy (.str s) = true :=
  ⟨rfl, by simpa [isTruthy] using hs⟩

theorem Builder.reached_new : Builder.Reached {} {} [] :=
  ⟨represents_new, Catalog.tidy_empty, fun _ hc => nomatch hc⟩

theorem Builder.eq_run_of_foldlM {default : Json} {b b' : Builder} {blocks : List Fragment}
    (h : blocks.foldlM (Builder.apply default) b = .ok b') : b' = b.run default blocks := by
  induction blocks generalizing b with
  | nil => exact (Except.ok.inj h).symm
  | cons f rest ih =>
    rw [List.foldlM_cons] at h
    cases happly : b.apply default f with
    | error fault =>
      rw [happly] at h
      exact nomatch h
    | ok b₁ =>
      rw [happly] at h
      rw [ih h, eq_step_of_apply happly]
      rfl

/-- What is built from fragments with the usual values has the usual types. -/
theorem Catalog.typed_of_build {default : String} (hdefault : default ≠ "") {blocks : List Fragment}
    (hblocks : ∀ f ∈ blocks, f.isTyped = true) {t : Catalog}
    (h : Catalog.build (.str default) {} blocks = .ok t) : t.Typed := by
  obtain ⟨b, c, fs, hfold, hb, -⟩ :=
    Builder.reached_new.foldlM hblocks (Json.isText_and_isTruthy hdefault)
  rw [eq_extend_of_build h, extend, ← Builder.eq_run_of_foldlM hfold]
  exact hb.typed_catalog

/-- **Every state that can be reached is well-formed.** Fragments with the usual values can be
folded into the empty catalog, under a default category that is not empty. The state they lead to is
well-formed, and its file is that of the last fragment. -/
theorem fold_wellFormed (default : String) (hdefault : default ≠ "") (blocks : List Fragment)
    (hblocks : ∀ f ∈ blocks, f.isTyped = true) :
    ∃ b : Builder, blocks.foldlM (Builder.apply (.str default)) {} = .ok b ∧ b.WellFormed ∧
      ∀ f, blocks.getLast? = some f → b.file = f.file := by
  obtain ⟨b, c, fs, hfold, hb, hfile⟩ :=
    Builder.reached_new.foldlM hblocks (Json.isText_and_isTruthy hdefault)
  refine ⟨b, hfold, hb.wellFormed, ?_⟩
  intro f hf
  rw [hfile, hf]
  rfl

/-- A section is documented twice, a block of properties follows, and another file comes last. -/
theorem fold_wellFormed_two_files :
    let size : Property :=
      { name := "size", type := "string", description := "", default := .null,
        required := .bool false, library := "react" }
    let blocks : List Fragment :=
      [{ file := "a.js", start := .int 1, stop := .int 3, tags :=
          [(.component, [.data "button"]), (.sectionKey, [.data "default"]),
            (.variation, [.data "small"]), (.html, [.data (.code "<b>" "&lt;b&gt;")])] },
        { file := "a.js", start := .int 4, stop := .int 6, tags :=
          [(.component, [.data "button"]), (.sectionKey, [.data "default"]),
            (.variation, [.data "large"])] },
        { file := "a.js", start := .int 7, stop := .int 8, tags := [(.prop, [.prop size])] },
        { file := "b.js", start := .int 1, stop := .int 1,
          tags := [(.category, [.data "Inputs"])] }]
    (∀ f ∈ blocks, f.isTyped = true) ∧
      ∃ b : Builder, blocks.foldlM (Builder.apply "Other") {} = .ok b ∧ b.WellFormed ∧
        ∀ f, blocks.getLast? = some f → b.file = f.file := by
  intro size blocks
  have hblocks : ∀ f ∈ blocks, f.isTyped = true := by decide
  exact ⟨hblocks, fold_wellFormed "Other" (by decide) blocks hblocks⟩

end StyleGuide
