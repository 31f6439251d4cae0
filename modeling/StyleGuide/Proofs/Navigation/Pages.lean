import StyleGuide.Proofs.Catalog.Independence
import StyleGuide.Proofs.Navigation.Fitting

/-!
# The pages of a document

A page is a section of a child of a category. Merging moves no page: the sections of a merged
template are those of the template, each with what is documented for it (`lists_merged_iff`).
Filtering takes pages away, and `hasPage_filtered_iff` says which ones stay: those of static
categories, and those whose section is shown with what is documented for it (`ShownWith`).
-/

namespace StyleGuide

section Traversal

variable {ε α β : Type}

theorem exists_of_mem_left {R : α → β → Prop} {xs : List α} {ys : List β} (h : List.Forall₂ R xs ys)
    {x : α} (hx : x ∈ xs) : ∃ y ∈ ys, R x y := by
  induction h with
  | nil => exact nomatch hx
  | cons hxy _ ih =>
    rcases List.mem_cons.mp hx with rfl | hx
    · exact ⟨_, List.mem_cons_self, hxy⟩
    · obtain ⟨y, hy, hR⟩ := ih hx
      exact ⟨y, List.mem_cons_of_mem _ hy, hR⟩

theorem exists_of_mem_right {R : α → β → Prop} {xs : List α} {ys : List β}
    (h : List.Forall₂ R xs ys) {y : β} (hy : y ∈ ys) : ∃ x ∈ xs, R x y :=
  exists_of_mem_left h.flip hy

/-- A traversal that does to each item what `g` does is a map. -/
theorem eq_map_of_mapM {f : α → Except ε β} {g : α → β} {xs : List α} {ys : List β}
    (h : xs.mapM f = .ok ys) (hg : ∀ x ∈ xs, ∀ y, f x = .ok y → y = g x) : ys = xs.map g := by
  have hall := mapM_eq_ok_iff.mp h
  clear h
  induction hall with
  | nil => rfl
  | cons hxy _ ih =>
    obtain ⟨hx, hxs⟩ := List.forall_mem_cons.mp hg
    rw [List.map_cons, hx _ hxy, ih hxs]

/-- What is kept is what the items give. -/
theorem mem_keepM_iff {f : α → Except ε (Option β)} {xs : List α} {ys : List β}
    (h : keepM f xs = .ok ys) {y : β} : y ∈ ys ↔ ∃ x ∈ xs, f x = .ok (some y) := by
  constructor
  · exact mem_of_keepM h
  · rintro ⟨x, hx, hfx⟩
    obtain ⟨zs, hzs, h⟩ := bind_eq_ok_iff.mp h
    obtain ⟨z, hz, hfz⟩ := exists_of_mem_left (mapM_eq_ok_iff.mp hzs) hx
    rw [pure_eq_ok_iff.mp h, List.mem_filterMap]
    exact ⟨z, hz, (Except.ok.inj (hfx.symm.trans hfz)).symm⟩

end Traversal

structure Page where
  category : Key
  component : Json
  key : Json

def Catalog.sectionOn? (t : Catalog) (p : Page) : Option Section :=
  (t.component? p.category.toJson p.component).bind (·.section? p.key)

namespace Navigation

/-- The document has a section with the given fields on a page, below a child with the given
ones. -/
def Places (docs : Json) (p : Page) (child s : Fields) : Prop :=
  ∃ sections, Lists docs p.category child sections ∧ (componentKey child).same p.component = true ∧
    .obj s ∈ sections ∧ (sectionKey s).same p.key = true

def HasPage (docs : Json) (p : Page) : Prop := ∃ child s, Places docs p child s

/-! ### Merging -/

variable {t : Catalog} {template merged : Json}

/-- A section with what is documented for it, if anything is. -/
def withDocs (d? : Option Section) (s : Fields) : Fields :=
  match d? with
  | some d => s.update (sectionChanges s d)
  | none => s

def pageOf (category : Key) (child s : Fields) : Page :=
    ⟨category, componentKey child, sectionKey s⟩

def mergedSection (t : Catalog) (category : Key) (child : Fields) : Json → Json
  | .obj s => .obj (withDocs (t.sectionOn? (pageOf category child s)) s)
  | s => s

theorem mergedSection_of_none {category : Key} {child : Fields}
    (h : t.component? category.toJson (componentKey child) = none) (s : Json) :
    mergedSection t category child s = s := by
  cases s <;> simp [mergedSection, Catalog.sectionOn?, pageOf, h, withDocs]

/-- A merge that succeeds gives the merged section. -/
theorem eq_mergedSection {category : Key} {child : Fields} {c : Component}
    (hc : t.component? category.toJson (componentKey child) = some c) {s s' : Json}
    (h : mergeSection? c s = .ok s') : s' = mergedSection t category child s := by
  obtain ⟨fields, rfl, -, hmatch⟩ := mergeSection?_eq_ok_iff.mp h
  have hon : t.sectionOn? (pageOf category child fields) = c.section? (sectionKey fields) := by
    simp [Catalog.sectionOn?, pageOf, hc]
  rw [mergedSection, hon]
  cases hs : c.section? (sectionKey fields) with
  | none =>
    rw [hs] at hmatch
    exact hmatch
  | some d =>
    simp only [hs] at hmatch
    exact (mergeSection_eq_ok_iff.mp hmatch).2

/-- A merged child is listed under its component, with its sections merged. -/
theorem mergeChild_sections {category : Key} {child : Fields} {ss : List Json} {child' : Json}
    (hss : child.getD "sections" (.arr []) = .arr ss)
    (h : mergeChild t category (.obj child) = .ok child') :
    ∃ fields : Fields, child' = .obj fields ∧ componentKey fields = componentKey child ∧
      fields.getD "sections" (.arr []) = .arr (ss.map (mergedSection t category child)) := by
  obtain ⟨_, hchild, -, hmatch⟩ := mergeChild_eq_ok_iff.mp h
  obtain rfl := Json.obj.inj hchild
  cases hc : t.component? category.toJson (componentKey child) with
  | none =>
    rw [hc] at hmatch
    refine ⟨child, hmatch, rfl, ?_⟩
    rw [List.map_congr_left fun s _ => mergedSection_of_none hc s, List.map_id', hss]
  | some c =>
    simp only [hc] at hmatch
    obtain ⟨-, -, old, new, hold, hnew, rfl⟩ := mergeComponent_eq_ok_iff.mp hmatch
    rw [hss] at hold
    obtain rfl : ss = old := Except.ok.inj hold
    refine ⟨_, rfl, ?_, ?_⟩
    · rw [componentKey, Fields.getD, get?_update_componentChanges]
      simp [componentKey, Fields.getD]
    · rw [← eq_map_of_mapM hnew fun s _ s' => eq_mergedSection hc]
      exact Fields.getD_of_get? (by simp [get?_update_componentChanges]) _

/-- **Merging moves no page.** -/
theorem lists_merged_iff (htemplate : templateFault? template = none)
    (h : merge t template = .ok merged) {category : Key} {component : Json} {sections : List Json} :
    (∃ child, Lists merged category child sections ∧ componentKey child = component) ↔
      ∃ child ss, Lists template category child ss ∧ componentKey child = component ∧
        sections = ss.map (mergedSection t category child) := by
  obtain ⟨cs, rfl, hcs⟩ := templateFault?_eq_none_iff.mp htemplate
  obtain ⟨_, ds, hobj, rfl, hall⟩ := merge_eq_ok_iff.mp h
  obtain rfl := Json.obj.inj hobj
  constructor
  · rintro ⟨child', ⟨_, d, hds, hd, kids', hkids', hchild', hss'⟩, rfl⟩
    obtain rfl := Json.obj.inj hds
    obtain ⟨⟨key, c⟩, hc, hkey, hmerge⟩ := exists_of_mem_right hall hd
    obtain rfl : category = key := hkey
    obtain ⟨kids, new, hkids, hnew, hnewkids⟩ := children_merged hmerge
    obtain rfl : kids' = new := Except.ok.inj (hkids'.symm.trans hnewkids)
    obtain ⟨kid, hkid, hmergeKid⟩ := exists_of_mem_mapM hnew hchild'
    -- A child of an accepted template is an object with a list of sections.
    obtain ⟨fields, accepted, rfl, haccepted, hfaults⟩ := categoryFault?_eq_none_iff.mp (hcs _ hc)
    obtain rfl : kids = accepted := by
      rw [children_obj, haccepted] at hkids
      exact (Except.ok.inj hkids).symm
    obtain ⟨child, ss, rfl, -, hss⟩ := childFault?_eq_none_iff.mp (hfaults kid hkid)
    obtain ⟨_, hfields, hcomponent, hsections⟩ := mergeChild_sections hss hmergeKid
    obtain rfl := Json.obj.inj hfields
    refine ⟨child, ss, ⟨cs, _, rfl, hc, kids, hkids, hkid, hss⟩, hcomponent.symm, ?_⟩
    exact Json.arr.inj (hss'.symm.trans hsections)
  · rintro ⟨child, ss, ⟨_, c, hobj, hc, kids, hkids, hchild, hss⟩, rfl, rfl⟩
    obtain rfl := Json.obj.inj hobj
    obtain ⟨⟨key, d⟩, hd, hkey, hmerge⟩ := exists_of_mem_left hall hc
    obtain rfl : key = category := hkey
    obtain ⟨old, new, hold, hnew, hnewkids⟩ := children_merged hmerge
    obtain rfl : kids = old := Except.ok.inj (hkids.symm.trans hold)
    obtain ⟨kid', hkid', hmergeKid⟩ := exists_of_mem_left (mapM_eq_ok_iff.mp hnew) hchild
    obtain ⟨fields, rfl, hcomponent, hsections⟩ := mergeChild_sections hss hmergeKid
    exact ⟨fields, ⟨ds, d, rfl, hd, new, hnewkids, hkid', hsections⟩, hcomponent⟩

/-! ### Filtering -/

variable {f : Filter} {kinds : List String} {docs : Json}

/-- The category lists a section below a child of the given component. -/
def ShelvesSection (category component s : Json) : Prop :=
  ∃ child sections, ListsChild category child sections ∧ componentKey child = component ∧
    s ∈ sections

/-- The document lists a section below a child of the given category and component. -/
def ListsSection (docs : Json) (category : Key) (component s : Json) : Prop :=
  ∃ (cs : Fields) (c : Json), docs = .obj cs ∧ (category, c) ∈ cs ∧ ShelvesSection c component s

theorem hasPage_iff {p : Page} :
    HasPage docs p ↔ ∃ component s, ListsSection docs p.category component (.obj s) ∧
      component.same p.component = true ∧ (sectionKey s).same p.key = true := by
  constructor
  · rintro ⟨child, s, sections, ⟨cs, c, hdocs, hc, hlists⟩, hcomponent, hs, hkey⟩
    exact ⟨_, s, ⟨cs, c, hdocs, hc, child, sections, hlists, rfl, hs⟩, hcomponent, hkey⟩
  · rintro ⟨_, s, ⟨cs, c, hdocs, hc, child, sections, hlists, rfl, hs⟩, hcomponent, hkey⟩
    exact ⟨child, s, sections, ⟨cs, c, hdocs, hc, hlists⟩, hcomponent, hs, hkey⟩

/-- The sections of a child that is kept are those that are shown. -/
theorem mem_sections_filterChild {child : Fields} {ss : List Json} {kept : Json}
    (hss : child.getD "sections" (.arr []) = .arr ss)
    (h : filterChild kinds (.obj child) = .ok (some kept)) :
    ∃ shown, kept = .obj (child.set "sections" (.arr shown)) ∧
      ∀ s, s ∈ shown ↔ s ∈ ss ∧ isShown kinds s = .ok true := by
  obtain ⟨_, old, shown, hobj, hold, hshown, -, rfl⟩ := filterChild_eq_some_iff.mp h
  obtain rfl := Json.obj.inj hobj
  obtain rfl : ss = old := Except.ok.inj ((filteredSections_of_getD hss).symm.trans hold)
  refine ⟨shown, rfl, ?_⟩
  intro s
  rw [shownSections_eq_keepM] at hshown
  rw [mem_keepM_iff hshown]
  constructor
  · rintro ⟨s', hs', hkept⟩
    obtain ⟨rfl, hs⟩ := shownSection?_eq_some_iff.mp hkept
    exact ⟨hs', hs⟩
  · rintro ⟨hs, hisShown⟩
    exact ⟨s, hs, shownSection?_eq_some_iff.mpr ⟨rfl, hisShown⟩⟩

/-- A child with a section that is shown is kept. -/
theorem exists_filterChild_eq_some {child : Fields} {ss : List Json} {kept : Option Json}
    (hss : child.getD "sections" (.arr []) = .arr ss)
    (h : filterChild kinds (.obj child) = .ok kept)
    {s : Json} (hs : s ∈ ss) (hisShown : isShown kinds s = .ok true) :
      ∃ child', kept = some child' := by
  obtain ⟨_, old, shown, hobj, hold, hshown, rfl⟩ := filterChild_eq_ok_iff.mp h
  obtain rfl := Json.obj.inj hobj
  obtain rfl : ss = old := Except.ok.inj ((filteredSections_of_getD hss).symm.trans hold)
  rw [shownSections_eq_keepM] at hshown
  have hmem : s ∈ shown :=
    (mem_keepM_iff hshown).mpr ⟨s, hs, shownSection?_eq_some_iff.mpr ⟨rfl, hisShown⟩⟩
  rw [if_neg]
  · exact ⟨_, rfl⟩
  · rw [List.isEmpty_iff]
    exact List.ne_nil_of_mem hmem

theorem componentKey_set_sections (child : Fields) (v : Json) :
    componentKey (child.set "sections" v) = componentKey child := by
  rw [componentKey, componentKey, Fields.getD_set_of_ne rfl]

/-- The sections of a category that is kept are those that are shown. -/
theorem shelvesSection_filterCategory_iff {key : Key} {category kept component s : Json}
    (hcategory : categoryFault? key category = none)
    (h : filterCategory kinds category = .ok (some kept)) :
    ShelvesSection kept component s ↔
      ShelvesSection category component s ∧ isShown kinds s = .ok true := by
  obtain ⟨fields, kids, shown, rfl, hkids, hshown, -, rfl⟩ := filterCategory_eq_some_iff.mp h
  -- A child of an accepted category is an object with a list of sections.
  have hlisted : ∀ kid ∈ kids, ∃ (child : Fields) (ss : List Json), kid = .obj child ∧
      child.getD "sections" (.arr []) = .arr ss := by
    obtain ⟨_, accepted, hobj, haccepted, hfaults⟩ := categoryFault?_eq_none_iff.mp hcategory
    obtain rfl := Json.obj.inj hobj
    obtain rfl : kids = accepted := by
      rw [children_obj, haccepted] at hkids
      exact (Except.ok.inj hkids).symm
    intro kid hkid
    obtain ⟨child, ss, rfl, -, hss⟩ := childFault?_eq_none_iff.mp (hfaults kid hkid)
    exact ⟨child, ss, rfl, hss⟩
  constructor
  · rintro ⟨child', sections, ⟨kids', hkids', hchild', hsections⟩, rfl, hs⟩
    obtain rfl : kids' = shown := Except.ok.inj (hkids'.symm.trans (children_set fields shown))
    obtain ⟨kid, hkid, hkept⟩ := (mem_keepM_iff hshown).mp hchild'
    obtain ⟨child, ss, rfl, hss⟩ := hlisted kid hkid
    obtain ⟨shownSections, hobj, hmem⟩ := mem_sections_filterChild hss hkept
    obtain rfl := Json.obj.inj hobj
    rw [Fields.getD_of_get?
      (Fields.get?_set_self child "sections" (.arr shownSections))] at hsections
    obtain rfl : shownSections = sections := Json.arr.inj hsections
    obtain ⟨hs, hisShown⟩ := (hmem s).mp hs
    exact ⟨⟨child, ss, ⟨kids, hkids, hkid, hss⟩, (componentKey_set_sections child _).symm, hs⟩,
      hisShown⟩
  · rintro ⟨⟨child, ss, ⟨_, hkids', hchild, hss⟩, rfl, hs⟩, hisShown⟩
    obtain rfl := Except.ok.inj (hkids.symm.trans hkids')
    obtain ⟨kept, hkept⟩ := exists_keepM_iff.mp ⟨shown, hshown⟩ _ hchild
    obtain ⟨child', rfl⟩ := exists_filterChild_eq_some hss hkept hs hisShown
    have hchild' := (mem_keepM_iff hshown).mpr ⟨_, hchild, hkept⟩
    obtain ⟨sections, rfl, hmem⟩ := mem_sections_filterChild hss hkept
    refine ⟨_, sections, ⟨shown, children_set fields shown, hchild', ?_⟩,
      componentKey_set_sections child _, (hmem s).mpr ⟨hs, hisShown⟩⟩
    exact Fields.getD_of_get? (Fields.get?_set_self child "sections" (.arr sections)) _

/-- A category with a section that is shown is kept. -/
theorem exists_filterCategory_eq_some {category component s : Json} {kept : Option Json}
    (h : filterCategory kinds category = .ok kept) (hs : ShelvesSection category component s)
    (hisShown : isShown kinds s = .ok true) : ∃ category', kept = some category' := by
  obtain ⟨child, ss, ⟨kids, hkids, hchild, hss⟩, -, hs⟩ := hs
  obtain ⟨fields, hfields, h⟩ := bind_eq_ok_iff.mp h
  obtain ⟨_, hkids', h⟩ := bind_eq_ok_iff.mp h
  obtain rfl := Except.ok.inj (hkids.symm.trans hkids')
  obtain ⟨shown, hshown, h⟩ := bind_eq_ok_iff.mp h
  rw [filterChildren_eq_keepM] at hshown
  obtain ⟨keptChild, hkeptChild⟩ := exists_keepM_iff.mp ⟨shown, hshown⟩ _ hchild
  obtain ⟨child', rfl⟩ := exists_filterChild_eq_some hss hkeptChild hs hisShown
  have hmem : child' ∈ shown := (mem_keepM_iff hshown).mpr ⟨_, hchild, hkeptChild⟩
  rw [pure_eq_ok_iff.mp h, if_neg]
  · exact ⟨_, rfl⟩
  · rw [List.isEmpty_iff]
    exact List.ne_nil_of_mem hmem

/-- A section of a document that was filtered: all sections of static categories are there, and of
the others those that are shown. -/
theorem listsSection_filtered_iff (hmerged : templateFault? merged = none)
    (h : filter f merged = .ok docs) {category : Key} {component s : Json} :
    ListsSection docs category component s ↔ ListsSection merged category component s ∧
      (f.keeps category = true ∨ isShown f.kinds s = .ok true) := by
  obtain ⟨cs, rfl, hcs⟩ := templateFault?_eq_none_iff.mp hmerged
  obtain ⟨_, new, hobj, rfl, hnew⟩ := filter_eq_ok_iff.mp h
  obtain rfl := Json.obj.inj hobj
  constructor
  · rintro ⟨_, kept, hobj, hkept, hs⟩
    obtain rfl := Json.obj.inj hobj
    obtain ⟨⟨key, c⟩, hc, hkept⟩ := (mem_keepM_iff hnew).mp hkept
    obtain ⟨hkey, hkept⟩ := filterEntry_eq_some_iff.mp hkept
    obtain rfl : category = key := hkey
    split at hkept
    · next hstatic =>
      obtain rfl : kept = c := hkept
      exact ⟨⟨cs, kept, rfl, hc, hs⟩, .inl hstatic⟩
    · obtain ⟨hs, hisShown⟩ := (shelvesSection_filterCategory_iff (hcs _ hc) hkept).mp hs
      exact ⟨⟨cs, c, rfl, hc, hs⟩, .inr hisShown⟩
  · rintro ⟨⟨_, c, hobj, hc, hs⟩, hstays⟩
    obtain rfl := Json.obj.inj hobj
    by_cases hstatic : f.keeps category
    · have hkept : filterEntry f (category, c) = .ok (some (category, c)) :=
        filterEntry_eq_some_iff.mpr ⟨rfl, by rw [if_pos hstatic]⟩
      exact ⟨new, c, rfl, (mem_keepM_iff hnew).mpr ⟨_, hc, hkept⟩, hs⟩
    · have hisShown := hstays.resolve_left hstatic
      rw [Bool.not_eq_true] at hstatic
      obtain ⟨kept, hkept⟩ :=
        exists_filterEntry_iff.mp (exists_keepM_iff.mp ⟨new, hnew⟩ _ hc) hstatic
      -- A category with a section that is shown is kept.
      obtain ⟨category', rfl⟩ := exists_filterCategory_eq_some hkept hs hisShown
      have hentry : filterEntry f (category, c) = .ok (some (category, category')) :=
        filterEntry_eq_some_iff.mpr ⟨rfl, by rw [hstatic, if_neg Bool.false_ne_true]; exact hkept⟩
      refine ⟨new, category', rfl, (mem_keepM_iff hnew).mpr ⟨_, hc, hentry⟩, ?_⟩
      exact (shelvesSection_filterCategory_iff (hcs _ hc) hkept).mpr ⟨hs, hisShown⟩

/-- Of the sections that a filter decides about it can be told whether they are shown. -/
theorem isReadable_of_filter (h : filter f merged = .ok docs) {category : Key} {component s : Json}
    (hs : ListsSection merged category component s) (hstatic : f.keeps category = false) :
    IsReadable f.kinds s := by
  obtain ⟨cs, c, rfl, hc, child, ss, ⟨kids, hkids, hchild, hss⟩, -, hs⟩ := hs
  obtain ⟨_, new, hobj, rfl, hnew⟩ := filter_eq_ok_iff.mp h
  obtain rfl := Json.obj.inj hobj
  have hcategory := exists_filterEntry_iff.mp (exists_keepM_iff.mp ⟨new, hnew⟩ _ hc) hstatic
  have hkept := (exists_filterCategory_iff hkids).mp hcategory _ hchild
  exact (exists_filterChild_iff (filteredSections_of_getD hss)).mp hkept s hs

/-! ### Sections that are shown -/

/-- The section is marked as core, or has an example of a wanted flavour. -/
def Shows (kinds : List String) (s : Fields) : Prop :=
  (s.getD "core" .null).isTruthy = true ∨ Exhibits kinds s "variations" ∨
    Exhibits kinds s "examples"

/-- A readable section is shown exactly if it is marked as core or exhibits something. -/
theorem isShown_eq_true_iff {s : Fields} (hs : IsReadable kinds (.obj s)) :
    isShown kinds (.obj s) = .ok true ↔ Shows kinds s := by
  have hunfold : isShown kinds (.obj s) = if (s.getD "core" .null).isTruthy then .ok true else (do
      if ← mapHasExample kinds s "variations" then return true
      mapHasExample kinds s "examples") := rfl
  rw [hunfold, Shows, ← mapHasExample_eq_true_iff, ← mapHasExample_eq_true_iff]
  by_cases hcore : (s.getD "core" .null).isTruthy
  · simp [hcore]
  · obtain ⟨_, hobj, hreadable⟩ := hs
    obtain rfl := Json.obj.inj hobj
    obtain ⟨found, hfound⟩ := (exists_mapHasExample_iff kinds).mpr (hreadable.resolve_left hcore).1
    rw [hfound]
    cases found <;> simp [hcore, bind, Except.bind, pure, Except.pure]

theorem has_fields_core (d : Section) : Fields.has d.fields "core" = false := by
  apply Fields.has_compact_of_lacks
  simp [Fields.has]

/-- Documentation does not change whether a section is marked as core. -/
theorem getD_core_withDocs (d? : Option Section) (s : Fields) :
    (withDocs d? s).getD "core" .null = s.getD "core" .null := by
  cases d? with
  | none => rfl
  | some d =>
    rw [withDocs, Fields.getD, get?_update_sectionChanges]
    simp [Fields.getD, Fields.get?_update_of_lacks (has_fields_core d)]

/-- What is documented adds nothing to the examples that only a template can have. -/
theorem exhibits_examples_withDocs (d? : Option Section) (s : Fields) :
    Exhibits kinds (withDocs d? s) "examples" ↔ Exhibits kinds s "examples" := by
  cases d? with
  | none => rfl
  | some d =>
    rw [withDocs, Exhibits, Exhibits, Fields.getD, get?_update_sectionChanges]
    by_cases hhas : s.has "examples"
    · -- The field is written back as an object; if it was none, that is empty.
      obtain ⟨v, hv⟩ := Option.isSome_iff_exists.mp ((Fields.isSome_get? s "examples").trans hhas)
      rw [Fields.getD_of_get? hv, Fields.mapAt, hv]
      cases v <;> simp [hhas]
    · simp [hhas, Fields.getD, Fields.get?_update_of_lacks (has_fields_examples d)]

/-- An example of a wanted flavour. -/
def IsWanted (kinds : List String) (e : Key × Json) : Prop :=
  kinds.contains (canonicalKind e.1.toJson.display) = true ∧ isExample e.2 = true

/-- The documented examples win over those of the template. -/
theorem get?_variations_withDocs (d : Section) (s : Fields) :
    (withDocs (some d) s).get? "variations" =
      some (.obj ((s.mapAt "variations").update (exampleFields d))) := by
  simp [withDocs, get?_update_sectionChanges]

/-- The examples after a merge: those of the template under the documented ones. -/
theorem exhibits_variations_withDocs {d : Section} {s : Fields} :
    Exhibits kinds (withDocs (some d) s) "variations" ↔
      ∃ e ∈ (s.mapAt "variations").update (exampleFields d), IsWanted kinds e := by
  rw [Exhibits, Fields.getD_of_get? (get?_variations_withDocs d s)]
  constructor
  · rintro ⟨map, hmap, hexhibits⟩
    obtain rfl := Json.obj.inj hmap
    exact hexhibits
  · intro hexhibits
    exact ⟨_, rfl, hexhibits⟩

/-! ### Pages after a merge and a filter -/

theorem sectionOn?_pageOf {p : Page} {child s : Fields}
    (hcomponent : (componentKey child).same p.component = true)
    (hkey : (sectionKey s).same p.key = true) :
    t.sectionOn? (pageOf p.category child s) = t.sectionOn? p := by
  have hplace : samePlace (p.category.toJson, componentKey child) (p.category.toJson, p.component) =
      true := by
    simp [samePlace, hcomponent]
  show (t.component? p.category.toJson (componentKey child)).bind (·.section? (sectionKey s)) = _
  rw [Catalog.component?_congr hplace, Catalog.sectionOn?]
  congr 1
  funext c
  exact section?_congr hkey

/-- A section keeps its key in a merge. -/
theorem sectionKey_withDocs {category : Key} {child s : Fields} :
    (sectionKey (withDocs (t.sectionOn? (pageOf category child s)) s)).same (sectionKey s) =
      true := by
  cases hd : t.sectionOn? (pageOf category child s) with
  | none => exact Json.same_refl _
  | some d =>
    obtain ⟨c, -, hc⟩ := Option.bind_eq_some_iff.mp hd
    have hsame : d.key.same (sectionKey s) = true := by simpa [pageOf] using List.find?_some hc
    have hget : Fields.get? (s.update (sectionChanges s d)) "section" =
        if d.key.isNull then s.get? "section" else some d.key := by
      rw [← get?_update_fields_section]
      simp [get?_update_sectionChanges]
    rw [withDocs, sectionKey, Fields.getD, hget]
    split
    · exact Json.same_refl _
    · exact hsame

/-- A section of a merged template is one of the template, with what is documented for it. -/
theorem listsSection_merged_iff (htemplate : templateFault? template = none)
    (h : merge t template = .ok merged) {category : Key} {component : Json} {s' : Fields} :
    ListsSection merged category component (.obj s') ↔
      ∃ child ss s, Lists template category child ss ∧ componentKey child = component ∧
        .obj s ∈ ss ∧ s' = withDocs (t.sectionOn? (pageOf category child s)) s := by
  have hlists : ListsSection merged category component (.obj s') ↔ ∃ sections,
      (∃ child, Lists merged category child sections ∧ componentKey child = component) ∧
        .obj s' ∈ sections := by
    constructor
    · rintro ⟨cs, c, hobj, hc, child, ss, hchild, hcomponent, hs⟩
      exact ⟨ss, ⟨child, ⟨cs, c, hobj, hc, hchild⟩, hcomponent⟩, hs⟩
    · rintro ⟨ss, ⟨child, ⟨cs, c, hobj, hc, hchild⟩, hcomponent⟩, hs⟩
      exact ⟨cs, c, hobj, hc, child, ss, hchild, hcomponent, hs⟩
  simp only [hlists, lists_merged_iff htemplate h]
  constructor
  · rintro ⟨_, ⟨child, ss, hchild, hcomponent, rfl⟩, hs'⟩
    obtain ⟨s, hs, hmerged⟩ := List.mem_map.mp hs'
    cases s with
    | obj fields => exact ⟨child, ss, fields, hchild, hcomponent, hs, (Json.obj.inj hmerged).symm⟩
    | _ => exact nomatch hmerged
  · rintro ⟨child, ss, s, hchild, hcomponent, hs, rfl⟩
    exact ⟨_, ⟨child, ss, hchild, hcomponent, rfl⟩, List.mem_map.mpr ⟨.obj s, hs, rfl⟩⟩

/-- **Merging keeps all pages and adds none.** -/
theorem hasPage_merged_iff (htemplate : templateFault? template = none)
    (h : merge t template = .ok merged) {p : Page} : HasPage merged p ↔ HasPage template p := by
  rw [hasPage_iff]
  simp only [listsSection_merged_iff htemplate h]
  constructor
  · rintro ⟨_, _, ⟨child, ss, s, hchild, rfl, hs, rfl⟩, hcomponent, hkey⟩
    rw [Json.same_congr_left sectionKey_withDocs] at hkey
    exact ⟨child, s, ss, hchild, hcomponent, hs, hkey⟩
  · rintro ⟨child, s, ss, hchild, hcomponent, hs, hkey⟩
    refine ⟨_, _, ⟨child, ss, s, hchild, rfl, hs, rfl⟩, hcomponent, ?_⟩
    rw [Json.same_congr_left sectionKey_withDocs]
    exact hkey

/-- **The pages that a filter leaves** are those of the template in static categories, and those
whose section is shown with what is documented on the page. -/
theorem hasPage_filtered_iff (htemplate : templateFault? template = none)
    (hmerge : merge t template = .ok merged) (hfilter : filter f merged = .ok docs) {p : Page} :
    HasPage docs p ↔ ∃ child s, Places template p child s ∧
      (f.keeps p.category = true ∨ Shows f.kinds (withDocs (t.sectionOn? p) s)) := by
  have hshown : ∀ component s, ListsSection merged p.category component (.obj s) →
      (f.keeps p.category = true ∨ isShown f.kinds (.obj s) = .ok true ↔
        f.keeps p.category = true ∨ Shows f.kinds s) := by
    intro component s hs
    by_cases hstatic : f.keeps p.category
    · simp [hstatic]
    · rw [isShown_eq_true_iff (isReadable_of_filter hfilter hs (by simpa using hstatic))]
  rw [hasPage_iff]
  simp only [listsSection_filtered_iff (templateFault?_merged htemplate hmerge) hfilter]
  constructor
  · rintro ⟨component, s', ⟨hs', hstays⟩, hcomponent, hkey⟩
    rw [hshown component s' hs'] at hstays
    obtain ⟨child, ss, s, hchild, rfl, hs, rfl⟩ := (listsSection_merged_iff htemplate hmerge).mp hs'
    rw [Json.same_congr_left sectionKey_withDocs] at hkey
    rw [sectionOn?_pageOf hcomponent hkey] at hstays
    exact ⟨child, s, ⟨ss, hchild, hcomponent, hs, hkey⟩, hstays⟩
  · rintro ⟨child, s, ⟨ss, hchild, hcomponent, hs, hkey⟩, hstays⟩
    have hs' := (listsSection_merged_iff htemplate hmerge).mpr ⟨child, ss, s, hchild, rfl, hs, rfl⟩
    rw [← sectionOn?_pageOf hcomponent hkey, ← hshown _ _ hs'] at hstays
    refine ⟨_, _, ⟨hs', hstays⟩, hcomponent, ?_⟩
    rw [Json.same_congr_left sectionKey_withDocs]
    exact hkey

end Navigation

end StyleGuide
