import StyleGuide.Compile
import StyleGuide.Proofs.Catalog.Tidy
import StyleGuide.Proofs.Navigation.Pages

/-!
# Pages that more documentation takes away

What is documented stays documented (`Catalog.Grows.sectionOn?`), with the same examples. So a page
that is there for some fragments is there for more of them, unless the additional ones are the first
to document it. Documented examples win over those of the template, also where they are empty. A
page that is shown for the examples of its template alone is lost if all of them are replaced by
empty ones: `Blanks` says when that is so, and `hasPage_or_blanked` that it is the only way to lose
a page.
-/

namespace StyleGuide

/-! ### Look-ups in a catalog that has grown -/

namespace Catalog.Grows

variable {relabelled : Json → Json → Prop} {t t' : Catalog}

/-- What is documented on a page stays there. -/
theorem sectionOn? (h : t.Grows relabelled t') {p : Page} {d : Section}
    (hd : t.sectionOn? p = some d) : ∃ d', t'.sectionOn? p = some d' ∧ d.Grows d' := by
  obtain ⟨k, hk, hd⟩ := Option.bind_eq_some_iff.mp hd
  obtain ⟨c, hc, hk⟩ := Option.bind_eq_some_iff.mp hk
  obtain ⟨c', hc', hgrows⟩ := h.categories.find? (fun _ _ hR => by rw [hR.key]) hc
  obtain ⟨k', hk', hgrows⟩ := hgrows.components.find? (fun _ _ hR => by rw [hR.key]) hk
  obtain ⟨d', hd', hgrows⟩ := hgrows.sections.find? (fun _ _ hR => by rw [hR.fields]) hd
  refine ⟨d', ?_, hgrows⟩
  have hcomponent : t'.component? p.category.toJson p.component = some k' :=
    Option.bind_eq_some_iff.mpr ⟨c', hc', hk'⟩
  exact Option.bind_eq_some_iff.mpr ⟨k', hcomponent, hd'⟩

theorem isEmpty_eq_false (h : t.Grows relabelled t') (hne : t.isEmpty = false) :
    t'.isEmpty = false := by
  rw [Catalog.isEmpty, List.all_eq_false] at hne ⊢
  obtain ⟨c, hc, hcomponents⟩ := hne
  rw [List.isEmpty_iff] at hcomponents
  obtain ⟨k, hk⟩ := List.exists_mem_of_ne_nil _ hcomponents
  obtain ⟨c', hc', hgrows⟩ := h.categories.exists_of_mem hc
  obtain ⟨k', hk', -⟩ := hgrows.components.exists_of_mem hk
  refine ⟨c', hc', ?_⟩
  rw [List.isEmpty_iff]
  exact List.ne_nil_of_mem hk'

end Catalog.Grows

/-! ### Examples of a section -/

theorem ExampleKind.word_injective {kind kind' : ExampleKind} (h : kind.word = kind'.word) :
    kind = kind' := by
  cases kind <;> cases kind' <;> first | rfl | exact absurd h (by decide)

/-- The section has at most one example of each flavour. -/
def Section.OneOfEach (s : Section) : Prop := s.examples.Pairwise fun e e' => e.1 ≠ e'.1

/-- Growth adds variants and no examples of the section itself. -/
theorem Section.OneOfEach.of_grows {s s' : Section} (h : s.OneOfEach) (hgrows : s.Grows s') :
    s'.OneOfEach := by
  rw [hgrows.fields]
  exact h

/-- A block has at most one example of each flavour for its section. -/
theorem Fragment.oneOfEach_toSection (f : Fragment) (key : Json) : (f.toSection key).OneOfEach := by
  have hall : ExampleKind.all.Pairwise (· ≠ ·) := by decide
  show (ExampleKind.all.filterMap fun kind => (f.example? kind).map fun e => (kind, e)).Pairwise _
  apply hall.filterMap
  intro kind kind' hne e he e' he'
  obtain ⟨_, -, rfl⟩ := Option.map_eq_some_iff.mp he
  obtain ⟨_, -, rfl⟩ := Option.map_eq_some_iff.mp he'
  exact hne

namespace Component

variable {c : Component}

/-- Every section of the component has at most one example of each flavour. -/
def OneOfEach (c : Component) : Prop := ∀ s ∈ c.sections, s.OneOfEach

theorem sections_addProps (c : Component) (ps : List Property) :
    (c.addProps ps).sections = c.sections := by
  induction ps generalizing c with
  | nil => rfl
  | cons p ps ih =>
    show (addProps (if p.name.isTruthy then c.addProp p else c) ps).sections = c.sections
    rw [ih]
    split
    · rw [addProp]
      split <;> rfl
    · rfl

theorem OneOfEach.addProps (h : c.OneOfEach) (ps : List Property) : (c.addProps ps).OneOfEach := by
  rw [OneOfEach, sections_addProps]
  exact h

/-- A component that is declared keeps its sections, or gets one of a block. -/
theorem OneOfEach.declaredBy {old : Option Component} (h : ∀ c, old = some c → c.OneOfEach)
    (component : Json) (f : Fragment) : (declaredBy old component f).OneOfEach := by
  have hold : (old.getD (.ofFragment component f)).OneOfEach := by
    cases old with
    | none => exact fun _ hs => nomatch hs
    | some c => exact h c rfl
  have hredeclared : ((old.getD (.ofFragment component f)).redeclare f).OneOfEach := by
    rw [redeclare]
    split <;> exact hold
  generalize hc : (old.getD (.ofFragment component f)).redeclare f = c at hredeclared
  rw [Component.declaredBy, hc]
  apply OneOfEach.addProps
  cases hkey : f.key? .sectionKey with
  | none =>
    rw [enterVariant_enterSection_of_none hkey]
    exact hredeclared
  | some key =>
    rw [enterVariant_enterSection hkey]
    apply forall_mem_upsert hredeclared
    · intro s hs _
      exact (hredeclared s hs).of_grows (s.grows_withVariantOf f)
    · exact (f.oneOfEach_toSection key).of_grows (Section.grows_withVariantOf _ f)

end Component

namespace Builder

/-- Every component that can be looked up has at most one example of each flavour in a section. -/
def OneOfEach (b : Builder) : Prop :=
  ∀ category component c, b.catalog.component? category component = some c → c.OneOfEach

theorem OneOfEach.step {b : Builder} (h : b.OneOfEach) (default : Json) (f : Fragment) :
    (b.step default f).OneOfEach := by
  intro category component c hc
  rw [component?_step] at hc
  split at hc
  · rw [change] at hc
    split at hc
    · obtain rfl := Option.some.inj hc
      exact .declaredBy (h category component) _ f
    · obtain ⟨old, hold, rfl⟩ := Option.map_eq_some_iff.mp hc
      exact (h category component old hold).addProps f.props
  · exact h category component c hc

/-- However fragments are entered, no section gets a second example of a flavour. -/
theorem OneOfEach.run {b : Builder} (h : b.OneOfEach) (default : Json) (fs : List Fragment) :
    (b.run default fs).OneOfEach := by
  induction fs generalizing b with
  | nil => exact h
  | cons f fs ih => exact ih (h.step default f)

end Builder

theorem Catalog.oneOfEach_sectionOn? {default : Json} {fs : List Fragment} {p : Page} {d : Section}
    (hd : (Catalog.extend default {} fs).sectionOn? p = some d) : d.OneOfEach := by
  have hempty : Builder.OneOfEach {} := fun _ _ _ hc => nomatch hc
  obtain ⟨c, hc, hd⟩ := Option.bind_eq_some_iff.mp hd
  exact hempty.run default fs _ _ c hc d (List.mem_of_find?_eq_some hd)

/-! ### Values in a well-formed document -/

namespace Json.WellFormed

variable {fields : Fields} {key : Key}

theorem distinct (h : (Json.obj fields).WellFormed) : fields.Distinct := by
  cases h with
  | obj hdistinct _ => exact hdistinct

theorem of_get? (h : (Json.obj fields).WellFormed) {v : Json} (hv : fields.get? key = some v) :
    v.WellFormed := by
  cases h with
  | obj _ hfields =>
    obtain ⟨f, hf, rfl⟩ := Option.map_eq_some_iff.mp hv
    exact hfields f (List.mem_of_find?_eq_some hf)

theorem of_mem {vs : List Json} (h : (Json.arr vs).WellFormed) {v : Json} (hv : v ∈ vs) :
    v.WellFormed := by
  cases h with
  | arr hitems => exact hitems v hv

/-- The items of a list at a key; a list that is not there has none. -/
theorem of_mem_getD (h : (Json.obj fields).WellFormed) {vs : List Json}
    (hvs : fields.getD key (.arr []) = .arr vs) {v : Json} (hv : v ∈ vs) : v.WellFormed := by
  rw [Fields.getD] at hvs
  cases hget : fields.get? key with
  | none =>
    rw [hget] at hvs
    obtain rfl : [] = vs := Json.arr.inj hvs
    cases hv
  | some w =>
    rw [hget] at hvs
    obtain rfl : w = .arr vs := hvs
    exact (h.of_get? hget).of_mem hv

theorem distinct_mapAt (h : (Json.obj fields).WellFormed) (key : Key) :
    Fields.Distinct (fields.mapAt key) := by
  rw [Fields.mapAt]
  split
  · next map hget => exact (h.of_get? hget).distinct
  · exact List.Pairwise.nil

end Json.WellFormed

namespace Navigation

/-! ### Examples that win -/

variable {kinds : List String} {d : Section} {s : Fields}

/-- The examples of a section are shown under different keys. -/
theorem distinct_exampleFields (h : d.OneOfEach) : Fields.Distinct (exampleFields d) := by
  rw [Fields.Distinct, Fields.keys, exampleFields, List.map_map, List.pairwise_map]
  apply h.imp
  intro e e' hne
  have hword : e.1.word ≠ e'.1.word := fun hword => hne (ExampleKind.word_injective hword)
  simp [hword]

/-- In the standard filter every flavour is wanted, so any example counts. -/
theorem isWanted_name (kind : ExampleKind) (v : Json) :
    IsWanted Filter.standard.kinds (.name kind.word, v) ↔ isExample v = true := by
  have hkind : Filter.standard.kinds.contains (canonicalKind (Key.name kind.word).toJson.display) =
      true := by
    cases kind <;> rfl
  rw [IsWanted, hkind]
  simp

/-- What is documented takes the page of a section away: the section is not marked as core, all that
is documented is empty, and every example of the template is one that is documented, too. -/
structure Blanks (kinds : List String) (d : Section) (s : Fields) : Prop where
  core : (s.getD "core" .null).isTruthy = false
  examples : ¬Exhibits kinds s "examples"
  documented : ∀ e ∈ d.examples, isExample e.2.shown = false
  variations : ∀ e ∈ s.mapAt "variations", IsWanted kinds e →
    ∃ e' ∈ d.examples, e.1.same (.name e'.1.word) = true

theorem eq_name_of_same {k : Key} {name : String} (h : k.same (.name name) = true) :
    k = .name name := by
  cases k with
  | name s => simpa using h
  | null => simp [Key.same, Key.canonical] at h
  | bool b => simp [Key.same, Key.canonical] at h
  | int n => simp [Key.same, Key.canonical] at h
  | code source escaped => simp [Key.same, Key.canonical] at h
  | double x =>
    rw [Key.same, Key.canonical, decide_eq_true_eq] at h
    split at h <;> cases h

/-- A section is shown with its documentation, or the documentation takes it away. -/
theorem shows_or_blanks (hd : d.OneOfEach) :
    Shows Filter.standard.kinds (withDocs (some d) s) ∨ Blanks Filter.standard.kinds d s := by
  rw [or_iff_not_imp_left]
  intro hnot
  rw [Shows, getD_core_withDocs, exhibits_examples_withDocs, exhibits_variations_withDocs] at hnot
  push Not at hnot
  obtain ⟨hcore, hvariations, hexamples⟩ := hnot
  refine ⟨by simpa using hcore, hexamples, ?_, ?_⟩
  · intro e he
    have hmem : (Key.name e.1.word, e.2.shown) ∈ exampleFields d := List.mem_map.mpr ⟨e, he, rfl⟩
    obtain ⟨k, hk, hshown⟩ :=
      Fields.exists_mem_update (distinct_exampleFields hd) hmem (s.mapAt "variations")
    obtain rfl := eq_name_of_same hk
    have hunwanted := hvariations _ hshown
    rw [isWanted_name] at hunwanted
    simpa using hunwanted
  · intro e he hwanted
    -- An example of another flavour would have stayed.
    by_cases hhas : Fields.has (exampleFields d) e.1
    · rw [Fields.has, List.any_eq_true] at hhas
      obtain ⟨f, hf, hsame⟩ := hhas
      obtain ⟨e', he', rfl⟩ := List.mem_map.mp hf
      rw [Key.same_comm] at hsame
      exact ⟨e', he', hsame⟩
    · exact absurd hwanted (hvariations e (Fields.mem_update_of_lacks he (by simpa using hhas)))

/-- Variants that are added to what is documented do not decide whether it is shown. -/
theorem shows_withDocs_of_grows {d' : Section} (hgrows : d.Grows d')
    (h : Shows kinds (withDocs (some d) s)) : Shows kinds (withDocs (some d') s) := by
  have hexamples : exampleFields d' = exampleFields d := by
    rw [exampleFields, hgrows.fields]
    rfl
  rw [Shows, getD_core_withDocs, exhibits_examples_withDocs, exhibits_variations_withDocs] at h ⊢
  rw [hexamples]
  exact h

/-- A section that documentation blanks has nothing to show. -/
theorem Blanks.not_shows (h : Blanks kinds d s)
    (hdistinct : Fields.Distinct (s.mapAt "variations")) :
    ¬Shows kinds (withDocs (some d) s) := by
  rw [Shows, getD_core_withDocs, exhibits_examples_withDocs, exhibits_variations_withDocs]
  rintro (hcore | ⟨e, he, hwanted⟩ | hexamples)
  · rw [h.core] at hcore
    cases hcore
  · rcases Fields.cases_of_mem_update hdistinct he with ⟨f, hf, hvalue⟩ | ⟨hmem, hlacks⟩
    · obtain ⟨e', he', rfl⟩ := List.mem_map.mp hf
      have hblank := h.documented e' he'
      rw [← show e.2 = e'.2.shown from hvalue, hwanted.2] at hblank
      cases hblank
    · obtain ⟨e', he', hsame⟩ := h.variations e hmem hwanted
      have hne := Fields.same_false_of_mem hlacks
        (show (Key.name e'.1.word, e'.2.shown) ∈ exampleFields d from
          List.mem_map.mpr ⟨e', he', rfl⟩)
      rw [Key.same_comm, hsame] at hne
      cases hne
  · exact h.examples hexamples

/-! ### Where a page is -/

theorem eq_of_pairwise {α : Type} {R : α → α → Prop} {xs : List α} (h : xs.Pairwise R) {x y : α}
    (hx : x ∈ xs) (hy : y ∈ xs) (hxy : ¬R x y) (hyx : ¬R y x) : x = y := by
  induction h with
  | nil => cases hx
  | cons hhead _ ih =>
    rcases List.mem_cons.mp hx with rfl | hxs <;> rcases List.mem_cons.mp hy with rfl | hys
    · rfl
    · exact absurd (hhead y hys) hxy
    · exact absurd (hhead x hxs) hyx
    · exact ih hxs hys

/-- Two objects have different values at a key; one that is missing is the empty text. -/
def DifferAt (key : Key) (v w : Json) : Prop :=
  ∀ fields fields' : Fields, v = .obj fields → w = .obj fields' →
    (fields.getD key (.str "")).same (fields'.getD key (.str "")) = false

/-- No two children of a category have the same component, and no two sections of a child the same
key. -/
structure DistinctPages (template : Json) : Prop where
  components : ∀ (cs : Fields) (key : Key) (c : Json) (kids : List Json), template = .obj cs →
    (key, c) ∈ cs → children c = .ok kids → kids.Pairwise (DifferAt "component")
  sections : ∀ (category : Key) (child : Fields) (ss : List Json),
    Lists template category child ss → ss.Pairwise (DifferAt "section")

/-- Of values that differ in a field, only one has a given value there. -/
theorem eq_of_pairwise_differAt {key : Key} {vs : List Json} (h : vs.Pairwise (DifferAt key))
    {fields fields' : Fields} {v : Json} (hmem : .obj fields ∈ vs) (hmem' : .obj fields' ∈ vs)
    (hv : (fields.getD key (.str "")).same v = true)
    (hv' : (fields'.getD key (.str "")).same v = true) :
    fields = fields' := by
  apply Json.obj.inj
  apply eq_of_pairwise h hmem hmem'
  · intro hdiffer
    have hne := hdiffer _ _ rfl rfl
    rw [Json.same_congr_right hv', hv] at hne
    cases hne
  · intro hdiffer
    have hne := hdiffer _ _ rfl rfl
    rw [Json.same_congr_right hv, hv'] at hne
    cases hne

variable {template : Json} {p : Page}

/-- The section on a page of a well-formed template is well-formed. -/
theorem Places.wellFormed {child : Fields} (htemplate : templateFault? template = none)
    (hwellFormed : template.WellFormed) (h : Places template p child s) :
    (Json.obj s).WellFormed := by
  obtain ⟨ss, ⟨cs, c, rfl, hc, kids, hkids, hchild, hss⟩, -, hs, -⟩ := h
  obtain ⟨_, hobj, hfaults⟩ := templateFault?_eq_none_iff.mp htemplate
  obtain rfl := Json.obj.inj hobj
  obtain ⟨fields, accepted, rfl, haccepted, -⟩ := categoryFault?_eq_none_iff.mp (hfaults _ hc)
  obtain rfl : accepted = kids := by
    rw [children_obj, haccepted] at hkids
    exact Except.ok.inj hkids
  have hcategory : (Json.obj fields).WellFormed := by
    cases hwellFormed with
    | obj _ hfields => exact hfields _ hc
  exact (hcategory.of_mem_getD haccepted hchild).of_mem_getD hss hs

/-- A page is in one place only. -/
theorem Places.unique {child child' s' : Fields} (hwellFormed : template.WellFormed)
    (hpages : DistinctPages template) (h : Places template p child s)
    (h' : Places template p child' s') :
    s = s' := by
  obtain ⟨ss, hlists, hcomponent, hs, hkey⟩ := h
  obtain ⟨ss', hlists', hcomponent', hs', hkey'⟩ := h'
  have hlisted := hlists
  obtain ⟨cs, c, rfl, hc, kids, hkids, hchild, hss⟩ := hlists
  obtain ⟨_, c', hobj, hc', kids', hkids', hchild', hss'⟩ := hlists'
  obtain rfl := Json.obj.inj hobj
  -- The category, the child and the section are found one after the other.
  obtain rfl : c = c' := by
    have hdistinct := List.pairwise_map.mp hwellFormed.distinct
    exact congrArg Prod.snd (eq_of_pairwise hdistinct hc hc' (by simp) (by simp))
  obtain rfl := Except.ok.inj (hkids.symm.trans hkids')
  obtain rfl := eq_of_pairwise_differAt (hpages.components cs _ c kids rfl hc hkids) hchild hchild'
    hcomponent hcomponent'
  obtain rfl := Json.arr.inj (hss.symm.trans hss')
  exact eq_of_pairwise_differAt (hpages.sections _ _ ss hlisted) hs hs' hkey hkey'

end Navigation

/-! ### Compiling more fragments -/

namespace Compilation

open Navigation

variable {c : Compilation} {template docs : Json} {t : Catalog}

/-- The pages of a document that is not filtered stay, and so do static ones; others are shown. -/
def Stays (c : Compilation) (d? : Option Section) (p : Page) (s : Fields) : Prop :=
  c.applyFilter = false ∨ Filter.standard.keeps p.category = true ∨
    Shows Filter.standard.kinds (withDocs d? s)

/-- A page is there exactly if the template has a place for it and the filter lets it stay. -/
theorem hasPage_render_iff (hnavigation : c.navigation = some template)
    (htemplate : templateFault? template = none) (hnonempty : t.isEmpty = false)
    (h : c.render t = .ok docs) {p : Page} :
    HasPage docs p ↔ ∃ child s, Places template p child s ∧ c.Stays (t.sectionOn? p) p s := by
  rw [render, hnonempty, if_neg Bool.false_ne_true, hnavigation] at h
  obtain ⟨merged, hmerge, h⟩ := bind_eq_ok_iff.mp h
  unfold Stays
  cases hfilter : c.applyFilter with
  | false =>
    rw [hfilter, if_neg Bool.false_ne_true] at h
    rw [pure_eq_ok_iff.mp h, hasPage_merged_iff htemplate hmerge]
    simp [HasPage]
  | true =>
    rw [hfilter, if_pos rfl] at h
    rw [hasPage_filtered_iff htemplate hmerge h]
    simp

/-- Without documentation there are no pages at all. -/
theorem not_hasPage_of_isEmpty (hempty : t.isEmpty = true) (h : c.render t = .ok docs) (p : Page) :
    ¬HasPage docs p := by
  rw [render, if_pos hempty] at h
  obtain rfl := Except.ok.inj h
  rintro ⟨_, _, _, ⟨cs, _, hobj, hmem, _⟩, _⟩
  obtain rfl := Json.obj.inj hobj
  cases hmem

/-- The page is there for the examples of the template, and what the second catalog documents on it
takes them away. The first one documents nothing there. -/
structure Blanked (c : Compilation) (template : Json) (t t' : Catalog) (p : Page) : Prop where
  filtered : c.applyFilter = true
  category : Filter.standard.keeps p.category = false
  undocumented : t.sectionOn? p = none
  blanks : ∃ child s d, Places template p child s ∧ t'.sectionOn? p = some d ∧
    Blanks Filter.standard.kinds d s

/-- What the additional fragments do to a section that stays. -/
theorem stays_or_blanked {relabelled : Json → Json → Prop} {t' : Catalog} {p : Page}
    {child s : Fields}
    (hgrows : t.Grows relabelled t') (hone : ∀ d, t'.sectionOn? p = some d → d.OneOfEach)
    (hplaces : Places template p child s) (h : c.Stays (t.sectionOn? p) p s) :
    c.Stays (t'.sectionOn? p) p s ∨ c.Blanked template t t' p := by
  by_cases hfilter : c.applyFilter = false
  · exact .inl (.inl hfilter)
  by_cases hstatic : Filter.standard.keeps p.category = true
  · exact .inl (.inr (.inl hstatic))
  have hshows := (h.resolve_left hfilter).resolve_left hstatic
  cases hd : t.sectionOn? p with
  | some d =>
    obtain ⟨d', hd', hgrows⟩ := hgrows.sectionOn? hd
    rw [hd] at hshows
    rw [hd']
    exact .inl (.inr (.inr (shows_withDocs_of_grows hgrows hshows)))
  | none =>
    cases hd' : t'.sectionOn? p with
    | none =>
      rw [hd] at hshows
      exact .inl (.inr (.inr hshows))
    | some d' =>
      rcases shows_or_blanks (hone d' hd') with hshows' | hblanks
      · exact .inl (.inr (.inr hshows'))
      · exact .inr ⟨by simpa using hfilter, by simpa using hstatic, hd, child, s, d', hplaces, hd',
          hblanks⟩

/-- A page that is blanked is missing, if no other one has its keys. -/
theorem Blanked.not_hasPage {t' : Catalog} {p : Page} (h : c.Blanked template t t' p)
    (hnavigation : c.navigation = some template) (htemplate : templateFault? template = none)
    (hwellFormed : template.WellFormed) (hpages : DistinctPages template)
    (hdocs : c.render t' = .ok docs) : ¬HasPage docs p := by
  cases hempty : t'.isEmpty with
  | true => exact not_hasPage_of_isEmpty hempty hdocs p
  | false =>
    rw [hasPage_render_iff hnavigation htemplate hempty hdocs]
    rintro ⟨child', s', hplaces', hstays⟩
    obtain ⟨child, s, d, hplaces, hd, hblanks⟩ := h.blanks
    obtain rfl := hplaces.unique hwellFormed hpages hplaces'
    rw [hd] at hstays
    rcases hstays with hfilter | hstatic | hshows
    · rw [h.filtered] at hfilter
      cases hfilter
    · rw [h.category] at hstatic
      cases hstatic
    · have hdistinct := (hplaces.wellFormed htemplate hwellFormed).distinct_mapAt "variations"
      exact hblanks.not_shows hdistinct hshows

/-- **Documenting more.** A page that is there for some fragments is there for more of them, unless
these are the first to document it, and blank all that the template shows on it. A page that is
blanked is gone, if it is in one place of the template only. -/
theorem hasPage_or_blanked (hnavigation : c.navigation = some template)
    (haccepted : check template = .ok template) {fs gs : List Fragment} {docs' : Json}
    (h : c.compile fs = .ok docs) (h' : c.compile (fs ++ gs) = .ok docs') {p : Page}
    (hp : HasPage docs p) :
    ∃ t t', c.catalog fs = .ok t ∧ c.catalog (fs ++ gs) = .ok t' ∧
      (HasPage docs' p ∨ c.Blanked template t t' p) ∧
      (template.WellFormed → DistinctPages template → c.Blanked template t t' p →
        ¬HasPage docs' p) := by
  have htemplate := check_eq_ok_iff.mp haccepted
  obtain ⟨t, ht, hdocs⟩ := bind_eq_ok_iff.mp h
  obtain ⟨t', ht', hdocs'⟩ := bind_eq_ok_iff.mp h'
  refine ⟨t, t', ht, ht', ?_, ?_⟩
  · have hgrows := Builder.grows_run c.defaultCategory (Builder.run c.defaultCategory {} fs) gs
    have hone : ∀ d, t'.sectionOn? p = some d → d.OneOfEach := by
      intro d hd
      rw [Catalog.eq_extend_of_build ht'] at hd
      exact Catalog.oneOfEach_sectionOn? hd
    rw [← Builder.run_append] at hgrows
    -- There are pages, so something is documented, and is so still with more fragments.
    have hnonempty : t.isEmpty = false := by
      rw [Bool.eq_false_iff]
      exact fun hempty => not_hasPage_of_isEmpty hempty hdocs p hp
    obtain rfl := Catalog.eq_extend_of_build ht
    obtain rfl := Catalog.eq_extend_of_build ht'
    have hnonempty' := hgrows.isEmpty_eq_false hnonempty
    obtain ⟨child, s, hplaces, hstays⟩ :=
      (hasPage_render_iff hnavigation htemplate hnonempty hdocs).mp hp
    rw [hasPage_render_iff hnavigation htemplate hnonempty' hdocs']
    exact (stays_or_blanked hgrows hone hplaces hstays).imp_left fun hstays' =>
      ⟨child, s, hplaces, hstays'⟩
  · intro hwellFormed hpages hblanked
    exact hblanked.not_hasPage hnavigation htemplate hwellFormed hpages hdocs'

/-- One example of the template is replaced by an empty one, and the page is still there for the
other. -/
theorem hasPage_or_blanked_two_flavours :
    let s : Fields := [("section", "default"), ("variations",
      .obj [("core", .obj [("example", "<b>")]), ("react", .obj [("example", "<B/>")])])]
    let template : Json := .obj [("components", .obj [("children", .arr
      [.obj [("component", "button"), ("sections", .arr [.obj s])]])])]
    let docs : Json := .obj [("components", .obj [("children", .arr
      [.obj [("component", "button"), ("sections", .arr [.obj s]), ("name", ""),
        ("description", ""), ("props", .obj [])]])])]
    let c : Compilation := { navigation := some template }
    let fs : List Fragment := [{ file := "a.js", start := .int 1, stop := .int 1, tags :=
      [(.component, [.data "button"])] }]
    let gs : List Fragment := [{ file := "b.js", start := .int 1, stop := .int 5, tags :=
      [(.component, [.data "button"]), (.sectionKey, [.data "default"]),
       (.html, [.data (.code "" "")])] }]
    let p : Page := ⟨"components", "button", "default"⟩
    check template = .ok template ∧ c.compile fs = .ok docs ∧ HasPage docs p ∧
      ∃ docs', c.compile (fs ++ gs) = .ok docs' ∧
        ∃ t t', c.catalog fs = .ok t ∧ c.catalog (fs ++ gs) = .ok t' ∧
          (HasPage docs' p ∨ c.Blanked template t t' p) ∧
          (template.WellFormed → DistinctPages template → c.Blanked template t t' p →
            ¬HasPage docs' p) := by
  intro s template docs c fs gs p
  have haccepted : check template = .ok template := rfl
  have hpage : HasPage docs p :=
    ⟨_, s, [.obj s], ⟨_, _, rfl, List.mem_cons_self, _, rfl, List.mem_cons_self, rfl⟩, rfl,
      List.mem_cons_self, rfl⟩
  exact ⟨haccepted, rfl, hpage, _, rfl, hasPage_or_blanked rfl haccepted rfl rfl hpage⟩

/-- A page is lost: its only example is replaced by an empty one. -/
theorem not_hasPage_of_empty_example :
    let s : Fields := [("section", "default"),
      ("variations", .obj [("core", .obj [("example", "<b>")])])]
    let template : Json := .obj [("components", .obj [("children", .arr
      [.obj [("component", "button"), ("sections", .arr [.obj s])]])])]
    let docs : Json := .obj [("components", .obj [("children", .arr
      [.obj [("component", "button"), ("sections", .arr [.obj s]), ("name", ""),
        ("description", ""), ("props", .obj [])]])])]
    let c : Compilation := { navigation := some template }
    let fs : List Fragment := [{ file := "a.js", start := .int 1, stop := .int 1, tags :=
      [(.component, [.data "button"])] }]
    let gs : List Fragment := [{ file := "b.js", start := .int 1, stop := .int 5, tags :=
      [(.component, [.data "button"]), (.sectionKey, [.data "default"]),
       (.html, [.data (.code "" "")])] }]
    let p : Page := ⟨"components", "button", "default"⟩
    check template = .ok template ∧ DistinctPages template ∧ c.compile fs = .ok docs ∧
      HasPage docs p ∧ c.compile (fs ++ gs) = .ok (.obj []) ∧ ¬HasPage (.obj []) p := by
  intro s template docs c fs gs p
  have hpage : HasPage docs p :=
    ⟨_, s, [.obj s], ⟨_, _, rfl, List.mem_cons_self, _, rfl, List.mem_cons_self, rfl⟩, rfl,
      List.mem_cons_self, rfl⟩
  have hlost : ¬HasPage (.obj []) p := by
    rintro ⟨_, _, _, ⟨_, _, hobj, hmem, _⟩, _⟩
    obtain rfl := Json.obj.inj hobj
    cases hmem
  refine ⟨rfl, ⟨?_, ?_⟩, rfl, hpage, rfl, hlost⟩
  · intro cs key category kids hobj hmem hkids
    obtain rfl := Json.obj.inj hobj
    obtain ⟨-, rfl⟩ := Prod.mk.inj (List.mem_singleton.mp hmem)
    obtain rfl := Except.ok.inj hkids
    exact List.pairwise_singleton _ _
  · rintro category child ss ⟨cs, c, hobj, hmem, kids, hkids, hchild, hss⟩
    obtain rfl := Json.obj.inj hobj
    obtain ⟨-, rfl⟩ := Prod.mk.inj (List.mem_singleton.mp hmem)
    obtain rfl := Except.ok.inj hkids
    obtain rfl := Json.obj.inj (List.mem_singleton.mp hchild)
    obtain rfl := Json.arr.inj hss
    exact List.pairwise_singleton _ _

end Compilation

end StyleGuide
