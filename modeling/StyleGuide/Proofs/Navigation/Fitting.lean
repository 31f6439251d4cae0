import StyleGuide.Proofs.Catalog.WellFormed
import StyleGuide.Proofs.Navigation.Accepted

/-!
# Which accepted templates go through

The check of a template looks at categories, children and the list of sections, and no deeper. A
merge and a filter do go deeper, and may find something there that they cannot work with. Here is
what they ask for beyond the check, exactly.

A merge looks at what is documented (`FitsChild`): the key of a child must be one that can be looked
up if its category is documented; a documented child must have an object of properties, if any, and
each of its sections must be an object with a key, and have objects of examples, if any, where it is
documented itself (`Fits`).

A filter looks at all sections of the categories that it does not keep as they are. A documented
section is never in its way; of another it must be possible to tell whether it is shown
(`IsReadable`).
-/

namespace StyleGuide

/-! ### Going through lists -/

section Traversal

variable {ε α β : Type}

theorem exists_forall₂_iff {R : α → β → Prop} {xs : List α} :
    (∃ ys, List.Forall₂ R xs ys) ↔ ∀ x ∈ xs, ∃ y, R x y := by
  induction xs with
  | nil => simp
  | cons x xs ih =>
    rw [List.forall_mem_cons, ← ih]
    constructor
    · rintro ⟨_, h⟩
      cases h with
      | cons hx hxs => exact ⟨⟨_, hx⟩, _, hxs⟩
    · rintro ⟨⟨y, hy⟩, ys, hys⟩
      exact ⟨y :: ys, .cons hy hys⟩

/-- A list can be mapped exactly if each of its items can. -/
theorem exists_mapM_iff {f : α → Except ε β} {xs : List α} :
    (∃ ys, xs.mapM f = .ok ys) ↔ ∀ x ∈ xs, ∃ y, f x = .ok y := by
  simp only [mapM_eq_ok_iff, exists_forall₂_iff]

theorem exists_keepM_iff {f : α → Except ε (Option β)} {xs : List α} :
    (∃ ys, keepM f xs = .ok ys) ↔ ∀ x ∈ xs, ∃ y, f x = .ok y := by
  rw [← exists_mapM_iff]
  constructor
  · rintro ⟨_, h⟩
    obtain ⟨zs, hzs, -⟩ := bind_eq_ok_iff.mp h
    exact ⟨zs, hzs⟩
  · rintro ⟨zs, hzs⟩
    exact ⟨_, bind_eq_ok_iff.mpr ⟨zs, hzs, rfl⟩⟩

/-- What holds of all items of one list, said about those of a list that goes along with it. -/
theorem forall_mem_iff_of_forall₂ {R : α → β → Prop} {P : β → Prop} {Q : α → Prop} {xs : List α}
    {ys : List β} (h : List.Forall₂ R xs ys) (hPQ : ∀ x y, x ∈ xs → R x y → (P y ↔ Q x)) :
    (∀ y ∈ ys, P y) ↔ ∀ x ∈ xs, Q x := by
  induction h with
  | nil => simp
  | cons hxy _ ih =>
    rw [List.forall_mem_cons, List.forall_mem_cons, hPQ _ _ List.mem_cons_self hxy]
    rw [ih fun x y hx => hPQ x y (List.mem_cons_of_mem _ hx)]

end Traversal

/-- What counts as "yes" at a key is an object. -/
def Fields.IsReadableAt (fields : Fields) (key : Key) : Prop :=
  (fields.getD key .null).isTruthy = true → ∃ map : Fields, fields.getD key .null = .obj map

theorem Fields.IsMapAt.isReadableAt {fields : Fields} {key : Key} (h : fields.IsMapAt key) :
    fields.IsReadableAt key := by
  rw [Fields.IsReadableAt, Fields.getD]
  cases hget : fields.get? key with
  | none =>
    intro htruthy
    exact absurd htruthy Bool.false_ne_true
  | some v =>
    intro _
    exact h v hget

namespace Navigation

variable {t : Catalog} {key : Key} {kinds : List String}

/-! ### What a merge asks for -/

/-- A section of a template fits a documented component. -/
def Fits (c : Component) (s : Json) : Prop :=
  ∃ fields : Fields, s = .obj fields ∧ (sectionKey fields).isKey = true ∧
    ((c.section? (sectionKey fields)).isSome = true → ∀ key ∈ exampleMaps, fields.IsMapAt key)

/-- A child of a template, given by its fields and sections, fits the catalog. -/
structure FitsChild (t : Catalog) (category : Key) (fields : Fields) (sections : List Json) :
    Prop where
  key : (t.category? category.toJson).isSome = true → (componentKey fields).isKey = true
  documented : ∀ c, t.component? category.toJson (componentKey fields) = some c →
    (∀ s ∈ c.sections, sectionFault? s = none) ∧ fields.IsMapAt "props" ∧ ∀ s ∈ sections, Fits c s

/-- A section can be merged exactly if it fits. -/
theorem exists_mergeSection?_iff {c : Component} {s : Json} :
    (∃ merged, mergeSection? c s = .ok merged) ↔ Fits c s := by
  simp only [mergeSection?_eq_ok_iff]
  constructor
  · rintro ⟨merged, fields, rfl, hkey, hmatch⟩
    refine ⟨fields, rfl, hkey, ?_⟩
    intro hsome
    obtain ⟨d, hd⟩ := Option.isSome_iff_exists.mp hsome
    simp only [hd] at hmatch
    exact (mergeSection_eq_ok_iff.mp hmatch).1
  · rintro ⟨fields, rfl, hkey, hmaps⟩
    cases hd : c.section? (sectionKey fields) with
    | none => exact ⟨.obj fields, fields, rfl, hkey, by rw [hd]⟩
    | some d =>
      rw [hd] at hmaps
      refine ⟨.obj (fields.update (sectionChanges fields d)), fields, rfl, hkey, ?_⟩
      rw [hd]
      exact mergeSection_eq_ok_iff.mpr ⟨hmaps rfl, rfl⟩

/-- A child can be merged with its component exactly if its properties and its sections fit. -/
theorem exists_mergeComponent_iff {c : Component} {fields : Fields} {ss : List Json}
    (hss : fields.getD "sections" (.arr []) = .arr ss) :
    (∃ merged, mergeComponent fields c = .ok merged) ↔
      (∀ s ∈ c.sections, sectionFault? s = none) ∧ fields.IsMapAt "props" ∧ ∀ s ∈ ss, Fits c s := by
  simp only [mergeComponent_eq_ok_iff, hss, ← exists_mergeSection?_iff, ← exists_mapM_iff]
  constructor
  · rintro ⟨merged, hfaults, hprops, old, new, hold, hnew, -⟩
    obtain rfl : ss = old := Except.ok.inj hold
    exact ⟨hfaults, hprops, new, hnew⟩
  · rintro ⟨hfaults, hprops, new, hnew⟩
    exact ⟨_, hfaults, hprops, ss, new, rfl, hnew, rfl⟩

theorem exists_mergeChild_iff {fields : Fields} {ss : List Json}
    (hss : fields.getD "sections" (.arr []) = .arr ss) :
    (∃ merged, mergeChild t key (.obj fields) = .ok merged) ↔ FitsChild t key fields ss := by
  constructor
  · rintro ⟨merged, h⟩
    obtain ⟨_, hfields, hkey, hmatch⟩ := mergeChild_eq_ok_iff.mp h
    obtain rfl := Json.obj.inj hfields
    refine ⟨hkey, ?_⟩
    intro c hc
    simp only [hc] at hmatch
    exact (exists_mergeComponent_iff hss).mp ⟨merged, hmatch⟩
  · rintro ⟨hkey, hdocumented⟩
    simp only [mergeChild_eq_ok_iff]
    cases hc : t.component? key.toJson (componentKey fields) with
    | none => exact ⟨.obj fields, fields, rfl, hkey, by rw [hc]⟩
    | some c =>
      obtain ⟨merged, hmerged⟩ := (exists_mergeComponent_iff hss).mpr (hdocumented c hc)
      exact ⟨merged, fields, rfl, hkey, by rw [hc]; exact hmerged⟩

/-! ### What a filter asks for -/

/-- Some example of a wanted flavour is at a key. -/
def Exhibits (kinds : List String) (fields : Fields) (key : Key) : Prop :=
  ∃ map : Fields, fields.getD key .null = .obj map ∧
    ∃ e ∈ map, kinds.contains (canonicalKind e.1.toJson.display) = true ∧ isExample e.2 = true

/-- It can be told whether a section is shown: it is marked as core, or there are objects in the
places that are searched for an example, up to the first one that has one. -/
def IsReadable (kinds : List String) (s : Json) : Prop :=
  ∃ fields : Fields, s = .obj fields ∧ ((fields.getD "core" .null).isTruthy = true ∨
    fields.IsReadableAt "variations" ∧
      (Exhibits kinds fields "variations" ∨ fields.IsReadableAt "examples"))

theorem asObject_orElse_eq_ok_iff {v : Json} {map : Fields} :
    (v.orElse (.obj [])).asObject = .ok map ↔
      if v.isTruthy then v = .obj map else map = [] := by
  rw [Json.asObject_eq_ok_iff, Json.orElse]
  split
  · rfl
  · rw [Json.obj.injEq]
    exact eq_comm

/-- Examples can be searched in a field exactly if there is an object, or what counts as "no". -/
theorem exists_mapHasExample_iff (kinds : List String) {fields : Fields} {name : String} :
    (∃ found, mapHasExample kinds fields name = .ok found) ↔ fields.IsReadableAt name := by
  simp only [mapHasExample, bind_eq_ok_iff, pure_eq_ok_iff, asObject_orElse_eq_ok_iff]
  rw [Fields.IsReadableAt]
  constructor
  · rintro ⟨found, map, hmap, -⟩ htruthy
    rw [if_pos htruthy] at hmap
    exact ⟨map, hmap⟩
  · intro hreadable
    by_cases htruthy : (fields.getD name .null).isTruthy
    · obtain ⟨map, hmap⟩ := hreadable htruthy
      exact ⟨_, map, by rw [if_pos htruthy]; exact hmap, rfl⟩
    · exact ⟨_, [], by rw [if_neg htruthy], rfl⟩

theorem mapHasExample_eq_true_iff {fields : Fields} {name : String} :
    mapHasExample kinds fields name = .ok true ↔ Exhibits kinds fields name := by
  simp only [mapHasExample, bind_eq_ok_iff, pure_eq_ok_iff, asObject_orElse_eq_ok_iff]
  rw [Exhibits]
  apply exists_congr
  intro map
  simp only [eq_comm (a := true), List.any_eq_true, Bool.and_eq_true]
  apply and_congr_left
  rintro ⟨e, he, -⟩
  split
  · rfl
  · next htruthy =>
    -- An empty object has no examples, and it is the only one that does not count as "yes".
    constructor
    · rintro rfl
      exact nomatch he
    · intro hmap
      rw [hmap] at htruthy
      cases map with
      | nil => exact nomatch he
      | cons f rest => exact absurd rfl htruthy

/-- The second field is searched only if the first one has no example. -/
theorem exists_hasExample_iff {fields : Fields} :
    (∃ found, hasExample kinds (.obj fields) = .ok found) ↔ fields.IsReadableAt "variations" ∧
      (Exhibits kinds fields "variations" ∨ fields.IsReadableAt "examples") := by
  rw [← exists_mapHasExample_iff kinds, ← exists_mapHasExample_iff kinds,
    ← mapHasExample_eq_true_iff]
  have hunfold : hasExample kinds (.obj fields) = (do
      if ← mapHasExample kinds fields "variations" then return true
      mapHasExample kinds fields "examples") := rfl
  rw [hunfold]
  cases mapHasExample kinds fields "variations" with
  | error fault => simp [bind, Except.bind]
  | ok found => cases found <;> simp [bind, Except.bind, pure, Except.pure]

/-- It can be told whether a section is shown exactly if it is readable. -/
theorem exists_isShown_iff {s : Json} :
    (∃ shown, isShown kinds s = .ok shown) ↔ IsReadable kinds s := by
  have hfields : ∀ fields : Fields, (∃ shown, isShown kinds (.obj fields) = .ok shown) ↔
      (fields.getD "core" .null).isTruthy = true ∨
        ∃ found, hasExample kinds (.obj fields) = .ok found := by
    intro fields
    have hunfold : isShown kinds (.obj fields) =
        if (fields.getD "core" .null).isTruthy then .ok true else hasExample kinds (.obj fields) :=
          rfl
    rw [hunfold]
    split
    · next hcore => simp [hcore]
    · next hcore => simp [hcore]
  constructor
  · rintro ⟨shown, h⟩
    obtain ⟨fields, hs, -⟩ := bind_eq_ok_iff.mp h
    obtain rfl := Json.asObject_eq_ok_iff.mp hs
    refine ⟨fields, rfl, ?_⟩
    rw [← exists_hasExample_iff]
    exact (hfields fields).mp ⟨shown, h⟩
  · rintro ⟨fields, rfl, h⟩
    rw [← exists_hasExample_iff] at h
    exact (hfields fields).mpr h

theorem exists_shownSection?_iff {s : Json} :
    (∃ kept, shownSection? kinds s = .ok kept) ↔ IsReadable kinds s := by
  rw [← exists_isShown_iff]
  simp only [shownSection?, bind_eq_ok_iff, pure_eq_ok_iff]
  constructor
  · rintro ⟨_, shown, hshown, -⟩
    exact ⟨shown, hshown⟩
  · rintro ⟨shown, hshown⟩
    exact ⟨_, shown, hshown, rfl⟩

theorem exists_filterChild_iff {fields : Fields} {ss : List Json}
    (hss : filteredSections fields = .ok ss) :
    (∃ kept, filterChild kinds (.obj fields) = .ok kept) ↔ ∀ s ∈ ss, IsReadable kinds s := by
  simp only [filterChild_eq_ok_iff, shownSections_eq_keepM, ← exists_shownSection?_iff,
    ← exists_keepM_iff]
  constructor
  · rintro ⟨_, _, old, shown, hfields, hold, hshown, -⟩
    obtain rfl := Json.obj.inj hfields
    obtain rfl : ss = old := Except.ok.inj (hss.symm.trans hold)
    exact ⟨shown, hshown⟩
  · rintro ⟨shown, hshown⟩
    exact ⟨_, fields, ss, shown, rfl, hss, hshown, rfl⟩

theorem exists_filterCategory_iff {category : Json} {kids : List Json}
    (hkids : children category = .ok kids) :
    (∃ kept, filterCategory kinds category = .ok kept) ↔
      ∀ child ∈ kids, ∃ kept, filterChild kinds child = .ok kept := by
  rw [← exists_keepM_iff]
  simp only [filterCategory, bind_eq_ok_iff, pure_eq_ok_iff, filterChildren_eq_keepM]
  constructor
  · rintro ⟨_, fields, -, old, hold, kept, hkept, -⟩
    obtain rfl : kids = old := Except.ok.inj (hkids.symm.trans hold)
    exact ⟨kept, hkept⟩
  · rintro ⟨kept, hkept⟩
    obtain ⟨fields, hfields, -⟩ := bind_eq_ok_iff.mp hkids
    exact ⟨_, fields, hfields, kids, hkids, kept, hkept, rfl⟩

/-! ### A filter after a merge -/

/-- The component has a section for the one of a template. -/
def Documents (c : Component) (s : Json) : Prop :=
  ∃ fields : Fields, s = .obj fields ∧ (c.section? (sectionKey fields)).isSome = true

/-- A section of a child with the given fields is not in the way of a filter after a merge. -/
def PassesFilter (t : Catalog) (kinds : List String) (category : Key) (fields : Fields)
    (s : Json) : Prop :=
  (∃ c, t.component? category.toJson (componentKey fields) = some c ∧ Documents c s) ∨
    IsReadable kinds s

/-- What a merge makes of a documented section is readable. -/
theorem isReadable_mergeSection {fields : Fields} {s : Section} {merged : Json}
    (h : mergeSection fields s = .ok merged) : IsReadable kinds merged := by
  obtain ⟨hmaps, rfl⟩ := mergeSection_eq_ok_iff.mp h
  have hreadable : ∀ key ∈ exampleMaps,
      Fields.IsReadableAt (fields.update (sectionChanges fields s)) key := fun key hkey =>
    (isMapAt_update_sectionChanges hmaps key hkey).isReadableAt
  refine ⟨_, rfl, .inr ⟨hreadable _ ?_, .inr (hreadable _ ?_)⟩⟩ <;> simp [exampleMaps]

/-- A merge makes a section readable if it is documented, and leaves it alone if it is not. -/
theorem isReadable_merged_iff {c : Component} {s merged : Json}
    (h : mergeSection? c s = .ok merged) :
    IsReadable kinds merged ↔ Documents c s ∨ IsReadable kinds s := by
  obtain ⟨fields, rfl, -, hmatch⟩ := mergeSection?_eq_ok_iff.mp h
  cases hd : c.section? (sectionKey fields) with
  | none =>
    rw [hd] at hmatch
    have hnot : ¬Documents c (.obj fields) := by
      rintro ⟨_, hfields, hsome⟩
      obtain rfl := Json.obj.inj hfields
      rw [hd] at hsome
      exact nomatch hsome
    rw [show merged = .obj fields from hmatch]
    exact (or_iff_right hnot).symm
  | some d =>
    simp only [hd] at hmatch
    have hdocuments : Documents c (.obj fields) := ⟨fields, rfl, by rw [hd]; rfl⟩
    exact iff_of_true (isReadable_mergeSection hmatch) (.inl hdocuments)

theorem filteredSections_of_getD {fields : Fields} {ss : List Json}
    (hss : fields.getD "sections" (.arr []) = .arr ss) : filteredSections fields = .ok ss := by
  rw [Fields.getD] at hss
  cases hget : fields.get? "sections" with
  | none =>
    rw [hget] at hss
    obtain rfl : [] = ss := Json.arr.inj hss
    rw [filteredSections, Fields.getD, hget]
    rfl
  | some v =>
    rw [hget] at hss
    obtain rfl : v = .arr ss := hss
    exact filteredSections_of_get? hget

theorem exists_filterChild_merged_iff {fields : Fields} {ss : List Json} {merged : Json}
    (hss : fields.getD "sections" (.arr []) = .arr ss)
    (h : mergeChild t key (.obj fields) = .ok merged) :
    (∃ kept, filterChild kinds merged = .ok kept) ↔
      ∀ s ∈ ss, PassesFilter t kinds key fields s := by
  obtain ⟨_, hfields, -, hmatch⟩ := mergeChild_eq_ok_iff.mp h
  obtain rfl := Json.obj.inj hfields
  unfold PassesFilter
  cases hc : t.component? key.toJson (componentKey fields) with
  | none =>
    -- A child that is not documented stays as it is.
    rw [hc] at hmatch
    rw [show merged = .obj fields from hmatch,
      exists_filterChild_iff (filteredSections_of_getD hss)]
    simp
  | some c =>
    simp only [hc] at hmatch
    obtain ⟨-, -, old, new, hold, hnew, rfl⟩ := mergeComponent_eq_ok_iff.mp hmatch
    rw [hss] at hold
    obtain rfl : ss = old := Except.ok.inj hold
    -- The filter finds the merged sections, one for each of the template.
    have hsections : Fields.get? (fields.update (componentChanges fields c new)) "sections" =
        some (.arr new) := by simp [get?_update_componentChanges]
    rw [exists_filterChild_iff (filteredSections_of_get? hsections),
      forall_mem_iff_of_forall₂ (mapM_eq_ok_iff.mp hnew) fun s s' _ hs => isReadable_merged_iff hs]
    simp

/-! ### Categories and templates -/

/-- A category lists a child with the given fields and sections. -/
def ListsChild (category : Json) (fields : Fields) (sections : List Json) : Prop :=
  ∃ kids, children category = .ok kids ∧ .obj fields ∈ kids ∧
    fields.getD "sections" (.arr []) = .arr sections

/-- A template lists a child with the given fields and sections in a category. -/
def Lists (template : Json) (category : Key) (fields : Fields) (sections : List Json) : Prop :=
  ∃ (cs : Fields) (c : Json), template = .obj cs ∧ (category, c) ∈ cs ∧ ListsChild c fields sections

/-- All children of an accepted category are listed. -/
theorem forall_children_iff {category : Json} {kids : List Json} {P : Json → Prop}
    {Q : Fields → List Json → Prop} (hcategory : categoryFault? key category = none)
    (hkids : children category = .ok kids)
    (hPQ : ∀ (fields : Fields) (ss : List Json), .obj fields ∈ kids →
      fields.getD "sections" (.arr []) = .arr ss → (P (.obj fields) ↔ Q fields ss)) :
    (∀ child ∈ kids, P child) ↔ ∀ fields ss, ListsChild category fields ss → Q fields ss := by
  constructor
  · rintro hP fields ss ⟨kids', hkids', hmem, hss⟩
    obtain rfl : kids = kids' := Except.ok.inj (hkids.symm.trans hkids')
    exact (hPQ fields ss hmem hss).mp (hP _ hmem)
  · intro hQ child hchild
    obtain ⟨_, cs, rfl, hcs, hfault⟩ := categoryFault?_eq_none_iff.mp hcategory
    obtain rfl : cs = kids := by
      rw [children_obj, hcs] at hkids
      exact Except.ok.inj hkids
    obtain ⟨fields, ss, rfl, -, hss⟩ := childFault?_eq_none_iff.mp (hfault child hchild)
    exact (hPQ fields ss hchild hss).mpr (hQ fields ss ⟨cs, hkids, hchild, hss⟩)

/-- A category that passes the check can be merged exactly if its children fit. -/
theorem exists_mergeCategory_iff {category : Json}
    (hcategory : categoryFault? key category = none) :
    (∃ merged, mergeCategory t key category = .ok merged) ↔
      ∀ fields ss, ListsChild category fields ss → FitsChild t key fields ss := by
  obtain ⟨kids, hkids⟩ : ∃ kids, children category = .ok kids := by
    obtain ⟨fields, cs, rfl, hcs, -⟩ := categoryFault?_eq_none_iff.mp hcategory
    exact ⟨cs, by rw [children_obj, hcs]; rfl⟩
  rw [← forall_children_iff (P := fun child => ∃ merged, mergeChild t key child = .ok merged)
    hcategory hkids fun fields ss _ hss => exists_mergeChild_iff hss, ← exists_mapM_iff]
  constructor
  · rintro ⟨merged, h⟩
    obtain ⟨old, new, hold, hnew, -⟩ := children_merged h
    obtain rfl : kids = old := Except.ok.inj (hkids.symm.trans hold)
    exact ⟨new, hnew⟩
  · rintro ⟨new, hnew⟩
    obtain ⟨fields, -, rfl, -⟩ := categoryFault?_eq_none_iff.mp hcategory
    exact ⟨_, mergeCategory_eq_ok_iff.mpr ⟨fields, kids, new, rfl, hkids, hnew, rfl⟩⟩

theorem exists_filterCategory_merged_iff {category merged : Json}
    (hcategory : categoryFault? key category = none)
    (h : mergeCategory t key category = .ok merged) :
    (∃ kept, filterCategory kinds merged = .ok kept) ↔
      ∀ fields ss, ListsChild category fields ss → ∀ s ∈ ss, PassesFilter t kinds key fields s := by
  obtain ⟨old, new, hold, hnew, hmerged⟩ := children_merged h
  -- Said about the children as they were before the merge.
  rw [exists_filterCategory_iff hmerged, forall_mem_iff_of_forall₂ (mapM_eq_ok_iff.mp hnew)
    (Q := fun child => ∀ m, mergeChild t key child = .ok m →
      ∃ kept, filterChild kinds m = .ok kept)]
  · apply forall_children_iff hcategory hold
    intro fields ss hmem hss
    obtain ⟨m, hm⟩ := exists_mapM_iff.mp ⟨new, hnew⟩ _ hmem
    rw [← exists_filterChild_merged_iff hss hm]
    constructor
    · intro hall
      exact hall m hm
    · intro hkept m' hm'
      obtain rfl : m = m' := Except.ok.inj (hm.symm.trans hm')
      exact hkept
  · intro child m _ hm
    constructor
    · intro hkept m' hm'
      obtain rfl : m = m' := Except.ok.inj (hm.symm.trans hm')
      exact hkept
    · intro hall
      exact hall m hm

/-- Every child that the template lists fits the catalog. -/
def Mergeable (t : Catalog) (template : Json) : Prop :=
  ∀ category fields sections, Lists template category fields sections →
    FitsChild t category fields sections

/-- Of every section that the template lists in a category that is not kept as it is, it can be told
after a merge whether it is shown. -/
def Filterable (f : Filter) (t : Catalog) (template : Json) : Prop :=
  ∀ category fields sections, Lists template category fields sections → f.keeps category = false →
    ∀ s ∈ sections, PassesFilter t f.kinds category fields s

/-- A template that passes the check can be merged exactly if all its children fit. -/
theorem exists_merge_iff {template : Json} (htemplate : templateFault? template = none) :
    (∃ merged, merge t template = .ok merged) ↔ Mergeable t template := by
  obtain ⟨cs, rfl, hcs⟩ := templateFault?_eq_none_iff.mp htemplate
  have hcategories : (∃ merged, merge t (.obj cs) = .ok merged) ↔
      ∀ c ∈ cs, ∃ d, mergeCategory t c.1 c.2 = .ok d := by
    simp only [merge_eq_ok_iff]
    constructor
    · rintro ⟨_, old, new, hold, -, hall⟩ c hc
      obtain rfl := Json.obj.inj hold
      obtain ⟨d, -, hd⟩ := exists_forall₂_iff.mp ⟨new, hall⟩ c hc
      exact ⟨d.2, hd⟩
    · intro hall
      have hpairs : ∀ c ∈ cs, ∃ d : Key × Json, d.1 = c.1 ∧ mergeCategory t c.1 c.2 = .ok d.2 := by
        intro c hc
        obtain ⟨d, hd⟩ := hall c hc
        exact ⟨(c.1, d), rfl, hd⟩
      obtain ⟨new, hnew⟩ := exists_forall₂_iff.mpr hpairs
      exact ⟨.obj new, cs, new, rfl, rfl, hnew⟩
  rw [hcategories]
  constructor
  · rintro hall category fields ss ⟨_, c, hobj, hc, hlists⟩
    obtain rfl := Json.obj.inj hobj
    exact (exists_mergeCategory_iff (hcs _ hc)).mp (hall _ hc) fields ss hlists
  · intro hall c hc
    apply (exists_mergeCategory_iff (hcs c hc)).mpr
    intro fields ss hlists
    exact hall c.1 fields ss ⟨cs, c.2, rfl, hc, hlists⟩

theorem exists_filterEntry_iff {f : Filter} {entry : Key × Json} :
    (∃ kept, filterEntry f entry = .ok kept) ↔
      (f.keeps entry.1 = false → ∃ kept, filterCategory f.kinds entry.2 = .ok kept) := by
  rw [filterEntry]
  by_cases hstatic : f.keeps entry.1
  · simp [hstatic]
  · simp only [hstatic, if_false, Bool.false_eq_true, bind_eq_ok_iff, pure_eq_ok_iff, forall_const]
    constructor
    · rintro ⟨_, kept, hkept, -⟩
      exact ⟨kept, hkept⟩
    · rintro ⟨kept, hkept⟩
      exact ⟨_, kept, hkept, rfl⟩

/-- What a merge gives can be filtered exactly if all sections that were not documented are
readable. -/
theorem exists_filter_merged_iff {f : Filter} {template merged : Json}
    (htemplate : templateFault? template = none) (h : merge t template = .ok merged) :
    (∃ result, filter f merged = .ok result) ↔ Filterable f t template := by
  obtain ⟨cs, rfl, hcs⟩ := templateFault?_eq_none_iff.mp htemplate
  obtain ⟨_, new, hold, rfl, hall⟩ := merge_eq_ok_iff.mp h
  obtain rfl := Json.obj.inj hold
  have hentries : (∃ result, filter f (.obj new) = .ok result) ↔
      ∀ d ∈ new, ∃ kept, filterEntry f d = .ok kept := by
    rw [← exists_keepM_iff]
    simp only [filter_eq_ok_iff]
    constructor
    · rintro ⟨_, old, kept, hnew, -, hkept⟩
      obtain rfl := Json.obj.inj hnew
      exact ⟨kept, hkept⟩
    · rintro ⟨kept, hkept⟩
      exact ⟨_, new, kept, rfl, rfl, hkept⟩
  -- Merged categories stand beside those of the template, under the same keys.
  rw [hentries, forall_mem_iff_of_forall₂ hall (Q := fun c => f.keeps c.1 = false →
    ∀ fields ss, ListsChild c.2 fields ss → ∀ s ∈ ss, PassesFilter t f.kinds c.1 fields s)]
  · constructor
    · rintro hfilter category fields ss ⟨_, c, hobj, hc, hlists⟩ hstatic
      obtain rfl := Json.obj.inj hobj
      exact hfilter _ hc hstatic fields ss hlists
    · intro hfilter c hc hstatic fields ss hlists
      exact hfilter c.1 fields ss ⟨cs, c.2, rfl, hc, hlists⟩ hstatic
  · rintro c d hc ⟨hkey, hmerge⟩
    rw [exists_filterEntry_iff, hkey]
    apply imp_congr_right
    intro _
    exact exists_filterCategory_merged_iff (hcs c hc) hmerge

/-! ### Documentation of the usual types -/

/-- A typed catalog has sections without faults. -/
theorem sectionFault?_eq_none_of_typed (ht : t.Typed) {category component : Json} {c : Component}
    (hc : t.component? category component = some c) : ∀ s ∈ c.sections, sectionFault? s = none := by
  obtain ⟨d, hd, hcd⟩ := Option.bind_eq_some_iff.mp hc
  have hcomponent := ht.components d (List.mem_of_find?_eq_some hd) c
    (List.mem_of_find?_eq_some hcd)
  intro s hs
  have hsection := hcomponent.sections s hs
  exact sectionFault?_eq_none_iff.mpr ⟨hsection.examples, Json.isKey_of_isText hsection.key⟩

/-- **What the check leaves to ask for.** An accepted template can be merged with a catalog if and
only if it is mergeable, and what the merge gives can be filtered if and only if the template is
filterable. What mergeable asks of documented sections holds of all that fragments with the usual
values document, so that then only the template can be in the way. -/
theorem exists_merge_and_filter_iff {template : Json} (htemplate : check template = .ok template)
    (t : Catalog) (f : Filter) :
    ((∃ merged, merge t template = .ok merged) ↔ Mergeable t template) ∧
    (∀ merged, merge t template = .ok merged →
      ((∃ result, filter f merged = .ok result) ↔ Filterable f t template)) ∧
    ∀ (default : String) (blocks : List Fragment), default ≠ "" →
      (∀ b ∈ blocks, b.isTyped = true) → Catalog.build (.str default) {} blocks = .ok t →
      ∀ category component c, t.component? category component = some c →
        ∀ s ∈ c.sections, sectionFault? s = none := by
  have haccepted := check_eq_ok_iff.mp htemplate
  refine ⟨exists_merge_iff haccepted, fun merged h => exists_filter_merged_iff haccepted h, ?_⟩
  intro default blocks hdefault hblocks hbuild category component c hc
  exact sectionFault?_eq_none_of_typed (Catalog.typed_of_build hdefault hblocks hbuild) hc

/-- A template is accepted that has null for the examples of a section. The merge fails where the
section is documented, and it does not where it is not. -/
theorem exists_merge_and_filter_iff_null_examples :
    let blocks : List Fragment := [{ file := "a.js", start := .int 1, stop := .int 3, tags :=
      [(.component, [.data "button"]), (.sectionKey, [.data "default"]),
       (.html, [.data (.code "<b>" "&lt;b&gt;")])] }]
    let t : Catalog := ⟨[{ key := "components", components :=
      [{ key := "button", sections :=
        [{ key := "default", examples := [(.core, .code "<b>" "&lt;b&gt;")] }] }] }]⟩
    let template : Json := .obj [("components", .obj [("children", .arr
      [.obj [("component", "button"), ("sections", .arr
        [.obj [("section", "default"), ("variations", .null)]])]])])]
    check template = .ok template ∧ Catalog.build "components" {} blocks = .ok t ∧
      merge t template = .error .notCopyable ∧ ¬Mergeable t template ∧
      merge {} template = .ok template ∧ Mergeable {} template ∧
      Filterable .standard {} template := by
  intro blocks t template
  have htemplate : check template = .ok template := rfl
  have hmerge : merge t template = .error .notCopyable := rfl
  have hempty : merge {} template = .ok template := rfl
  obtain ⟨hmergeable, -, -⟩ := exists_merge_and_filter_iff htemplate t .standard
  obtain ⟨hmergeable', hfilterable', -⟩ := exists_merge_and_filter_iff htemplate {} .standard
  refine ⟨htemplate, rfl, hmerge, ?_, hempty, hmergeable'.mp ⟨template, hempty⟩,
    (hfilterable' template hempty).mp ⟨.obj [], rfl⟩⟩
  rw [← hmergeable]
  rintro ⟨merged, h⟩
  exact nomatch hmerge.symm.trans h

end Navigation

end StyleGuide
