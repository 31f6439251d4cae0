import StyleGuide.Proofs.Navigation.Accepted

/-!
# Whose fields win in a merge

What a merged template has at each key, told by look-ups in the template and in the documentation:
which of the two decides, and where both do. The description goes down the template, from its
categories to their children and sections, which stay as many as they were and in their order.
-/

namespace StyleGuide

namespace Fields

variable {old new : Fields}

/-- The fields of two objects in one: those of the second win. Of several with one key the last
counts. -/
def IsUnion (union old new : Fields) : Prop :=
  ∀ key, union.get? key = (Fields.get? new.reverse key).or (old.get? key)

theorem isUnion_update (old new : Fields) : IsUnion (old.update new) old new := get?_update old new

theorem get?_update_of_distinct (h : Distinct new) (key : Key) :
    Fields.get? (old.update new) key = (new.get? key).or (old.get? key) := by
  rw [get?_update, get?_reverse h]

theorem Distinct.compact {fields : Fields} (h : Distinct fields) : Distinct (compact fields) :=
  h.sublist (List.filter_sublist.map Prod.fst)

theorem getD_of_isMapAt {fields : Fields} {key : Key} (h : fields.IsMapAt key) :
    fields.getD key (.obj []) = .obj (fields.mapAt key) := by
  rw [getD, mapAt]
  cases hget : fields.get? key with
  | none => rfl
  | some v =>
    obtain ⟨map, rfl⟩ := h v hget
    rfl

end Fields

/-- The fields of a documented section have different keys. -/
theorem Section.distinct_fields (s : Section) : Fields.Distinct s.fields := by
  apply Fields.Distinct.compact
  simp [Fields.Distinct, Fields.keys]

namespace Navigation

/-! ### What a merge leaves at a key -/

/-- The documented label, unless it is empty: then that of the template, or the empty text. -/
def LabelAt (key : Key) (documented : Json) (old new : Fields) : Prop :=
  new.get? key = some (if documented.isTruthy then documented else (old.get? key).getD (.str ""))

/-- The object of the template, with the documented fields over its own. -/
def UnionAt (key : Key) (documented old new : Fields) : Prop :=
  ∃ map union : Fields, old.getD key (.obj []) = .obj map ∧ new.get? key = some (.obj union) ∧
    union.IsUnion map documented

/-- The list of the template, item by item. A list that is not there has no items. -/
def ItemsAt (key : Key) (item : Json → Json → Prop) (old new : Fields) : Prop :=
  ∃ vs ws : List Json, old.getD key (.arr []) = .arr vs ∧ new.getD key (.arr []) = .arr ws ∧
    List.Forall₂ item vs ws

/-- The key is none of the given ones. -/
def Beside (keys : List Key) (key : Key) : Prop := ∀ k ∈ keys, k.same key = false

/-- A section with its documentation: a documented field wins, but an empty label does not, and
examples are put together. -/
structure MergedSection (s : Section) (old new : Fields) : Prop where
  name : LabelAt "name" s.name old new
  description : LabelAt "description" s.description old new
  variations : UnionAt "variations" (exampleFields s) old new
  other : ∀ key, Beside ["name", "description", "variations"] key →
    new.get? key = (Fields.get? s.fields key).or (old.get? key)

inductive SectionOutcome (c : Component) : Json → Json → Prop
  | undocumented {old : Fields} : c.section? (sectionKey old) = none →
      SectionOutcome c (.obj old) (.obj old)
  | documented {old new : Fields} {s : Section} : c.section? (sectionKey old) = some s →
      MergedSection s old new → SectionOutcome c (.obj old) (.obj new)

/-- A child with its documentation: all that is not documented stays, and there is a list of
sections. -/
structure MergedComponent (c : Component) (old new : Fields) : Prop where
  name : LabelAt "name" c.name old new
  description : LabelAt "description" c.description old new
  sections : new.has "sections" = true ∧ ItemsAt "sections" (SectionOutcome c) old new
  props : UnionAt "props" c.tableFields old new
  other : ∀ key, Beside ["name", "description", "sections", "props"] key →
    new.get? key = old.get? key

inductive ChildOutcome (t : Catalog) (category : Key) : Json → Json → Prop
  | undocumented {old : Fields} : t.component? category.toJson (componentKey old) = none →
      ChildOutcome t category (.obj old) (.obj old)
  | documented {old new : Fields} {c : Component} :
      t.component? category.toJson (componentKey old) = some c → MergedComponent c old new →
      ChildOutcome t category (.obj old) (.obj new)

/-- A category: its children are merged, all else stays, and no field is added or moved. -/
structure MergedCategory (t : Catalog) (category : Key) (old new : Fields) : Prop where
  keys : new.keys = old.keys
  children : ItemsAt "children" (ChildOutcome t category) old new
  other : ∀ key, Beside ["children"] key → new.get? key = old.get? key

inductive CategoryOutcome (t : Catalog) : Key × Json → Key × Json → Prop
  | merged {category : Key} {old new : Fields} : MergedCategory t category old new →
      CategoryOutcome t (category, .obj old) (category, .obj new)

/-! ### Sections -/

variable {t : Catalog} {c : Component} {s : Section} {category key : Key} {old new : Fields}

theorem labelAt_of_get? {documented : Json}
    (h : new.get? key = some (preferLabel documented old key)) : LabelAt key documented old new := h

theorem unionAt_of_get? {documented : Fields} (hmap : old.IsMapAt key)
    (h : new.get? key = some (.obj ((old.mapAt key).update documented))) :
    UnionAt key documented old new :=
  ⟨_, _, Fields.getD_of_isMapAt hmap, h, Fields.isUnion_update _ _⟩

/-- The changes that a merge makes are those of a merged section. -/
theorem mergedSection_update (hmaps : ∀ key ∈ exampleMaps, old.IsMapAt key) :
    MergedSection s old (old.update (sectionChanges old s)) where
  name := labelAt_of_get? (by simp [get?_update_sectionChanges])
  description := labelAt_of_get? (by simp [get?_update_sectionChanges])
  variations := by
    apply unionAt_of_get? (hmaps _ (by simp [exampleMaps]))
    simp [get?_update_sectionChanges]
  other key hkey := by
    have hname := hkey "name" (by simp)
    have hdescription := hkey "description" (by simp)
    have hvariations := hkey "variations" (by simp)
    simp only [get?_update_sectionChanges, hname, hdescription, hvariations, Bool.false_eq_true,
      if_false]
    split
    · -- The examples of a template are written back, and no section documents any.
      next h =>
      obtain ⟨hsame, hhas⟩ := Bool.and_eq_true_iff.mp h
      have hexamples : old.get? "examples" = some (.obj (old.mapAt "examples")) := by
        have hget := Fields.getD_of_isMapAt (hmaps "examples" (by simp [exampleMaps]))
        rw [← Fields.isSome_get?] at hhas
        obtain ⟨v, hv⟩ := Option.isSome_iff_exists.mp hhas
        rw [Fields.getD_of_get? hv] at hget
        rw [hv, hget]
      rw [← Fields.get?_congr hsame, ← Fields.get?_congr hsame,
        Fields.get?_eq_none (has_fields_examples s), hexamples]
      rfl
    · exact Fields.get?_update_of_distinct s.distinct_fields key

/-- A merge that succeeds has the outcome for a section. -/
theorem sectionOutcome_of_merge {template merged : Json}
    (h : mergeSection? c template = .ok merged) :
    SectionOutcome c template merged := by
  obtain ⟨old, rfl, -, hmatch⟩ := mergeSection?_eq_ok_iff.mp h
  cases hs : c.section? (sectionKey old) with
  | none =>
    rw [hs] at hmatch
    rw [show merged = .obj old from hmatch]
    exact .undocumented hs
  | some s =>
    simp only [hs] at hmatch
    obtain ⟨hmaps, rfl⟩ := mergeSection_eq_ok_iff.mp hmatch
    exact .documented hs (mergedSection_update hmaps)

/-! ### Children and categories -/

/-- The changes that a merge makes are those of a merged child. -/
theorem mergedComponent_update {ss ss' : List Json} (hprops : old.IsMapAt "props")
    (hss : old.getD "sections" (.arr []) = .arr ss) (hss' : ss.mapM (mergeSection? c) = .ok ss') :
    MergedComponent c old (old.update (componentChanges old c ss')) where
  name := labelAt_of_get? (by simp [get?_update_componentChanges])
  description := labelAt_of_get? (by simp [get?_update_componentChanges])
  sections := by
    have hget : Fields.get? (old.update (componentChanges old c ss')) "sections" =
        some (.arr ss') := by
      simp [get?_update_componentChanges]
    refine ⟨Fields.has_of_get? hget, ss, ss', hss, Fields.getD_of_get? hget _, ?_⟩
    exact (mapM_eq_ok_iff.mp hss').imp fun _ _ => sectionOutcome_of_merge
  props := unionAt_of_get? hprops (by simp [get?_update_componentChanges])
  other key hkey := by
    have hname := hkey "name" (by simp)
    have hdescription := hkey "description" (by simp)
    have hsections := hkey "sections" (by simp)
    have hprops := hkey "props" (by simp)
    simp [get?_update_componentChanges, hname, hdescription, hsections, hprops]

theorem childOutcome_of_merge {child merged : Json} (hchild : childFault? category child = none)
    (h : mergeChild t category child = .ok merged) : ChildOutcome t category child merged := by
  obtain ⟨old, rfl, -, hmatch⟩ := mergeChild_eq_ok_iff.mp h
  cases hc : t.component? category.toJson (componentKey old) with
  | none =>
    rw [hc] at hmatch
    rw [show merged = .obj old from hmatch]
    exact .undocumented hc
  | some c =>
    simp only [hc] at hmatch
    obtain ⟨-, hprops, ss, ss', hss, hss', rfl⟩ := mergeComponent_eq_ok_iff.mp hmatch
    -- An accepted child has its sections in a list.
    obtain ⟨_, items, hold, -, hitems⟩ := childFault?_eq_none_iff.mp hchild
    obtain rfl := Json.obj.inj hold
    obtain rfl : items = ss := by
      rw [hitems] at hss
      exact Except.ok.inj hss
    exact .documented hc (mergedComponent_update hprops hitems hss')

/-- A merge that succeeds has the outcome for a category. -/
theorem categoryOutcome_of_merge {template merged : Json}
    (htemplate : categoryFault? category template = none)
    (h : mergeCategory t category template = .ok merged) :
    CategoryOutcome t (category, template) (category, merged) := by
  obtain ⟨old, cs, rfl, hcs, haccepted⟩ := categoryFault?_eq_none_iff.mp htemplate
  obtain ⟨_, cs', ds, hold, hcs', hds, rfl⟩ := mergeCategory_eq_ok_iff.mp h
  obtain rfl := Json.obj.inj hold
  obtain rfl : cs = cs' := by
    rw [children_obj, hcs] at hcs'
    exact Except.ok.inj hcs'
  have hchildren : List.Forall₂ (ChildOutcome t category) cs ds := by
    have hall := (List.forall₂_and_left ..).mpr ⟨haccepted, mapM_eq_ok_iff.mp hds⟩
    exact hall.imp fun _ _ hchild => childOutcome_of_merge hchild.1 hchild.2
  refine .merged ?_
  by_cases hhas : old.has "children"
  · rw [if_pos hhas]
    have hget := Fields.get?_set_self old "children" (.arr ds)
    refine ⟨?_, ⟨cs, ds, hcs, Fields.getD_of_get? hget _, hchildren⟩, ?_⟩
    · rw [Fields.keys_set, if_pos hhas]
    · intro key hkey
      rw [Fields.get?_set, hkey "children" (by simp)]
      rfl
  · rw [if_neg hhas]
    -- There are no children, so none were merged.
    have hnone : old.getD "children" (.arr []) = .arr [] := by
      rw [Fields.getD, Fields.get?_eq_none (by simpa using hhas)]
      rfl
    obtain rfl : cs = [] := Json.arr.inj (hcs.symm.trans hnone)
    exact ⟨rfl, ⟨[], [], hnone, hnone, .nil⟩, fun _ _ => rfl⟩

/-- **Template and documentation, field by field.** A merge of an accepted template keeps its
categories, their children and the sections of those, in number and order, and all that is not
documented. Of what is, each field is decided as `MergedComponent` and `MergedSection` say. -/
theorem merge_precedence {template merged : Json} (htemplate : check template = .ok template)
    (h : merge t template = .ok merged) :
    ∃ old new : Fields, template = .obj old ∧ merged = .obj new ∧
      List.Forall₂ (CategoryOutcome t) old new := by
  obtain ⟨old, rfl, haccepted⟩ := templateFault?_eq_none_iff.mp (check_eq_ok_iff.mp htemplate)
  obtain ⟨_, new, hold, rfl, hall⟩ := merge_eq_ok_iff.mp h
  obtain rfl := Json.obj.inj hold
  refine ⟨old, new, rfl, rfl, ?_⟩
  have hall := (List.forall₂_and_left ..).mpr ⟨haccepted, hall⟩
  refine hall.imp ?_
  rintro ⟨category, before⟩ ⟨_, after⟩ ⟨hcategory, rfl, hmerge⟩
  exact categoryOutcome_of_merge hcategory hmerge

/-- A button whose name the template gives, with a documented table beside one of the template, and
a section whose examples and parameters come from both. The other section and the tab are not
documented. -/
theorem merge_precedence_button :
    let t : Catalog := ⟨[{ key := "components", components :=
      [{ key := "button", description := "Press it.", tables := [⟨"react", []⟩], sections :=
        [{ key := "default", name := "Plain", examples := [(.core, .code "<b>" "&lt;b&gt;")],
           params := ["size"] }] }] }]⟩
    let tab : Json := .obj [("component", "tab"), ("sections", .arr [])]
    let other : Json := .obj [("section", "other"), ("params", "kept")]
    let template : Json := .obj [("components", .obj [("title", "All"), ("children", .arr
      [.obj [("component", "button"), ("name", "Button"), ("description", "Old."), ("icon", "b"),
         ("props", .obj [("vue", "kept")]), ("sections", .arr
          [.obj [("section", "default"), ("name", "Old"), ("description", "Kept."),
             ("states", "kept"), ("params", "old"),
             ("variations", .obj [("core", "old"), ("vue", "kept")])], other])],
       tab])]), ("empty", .obj [])]
    let merged : Json := .obj [("components", .obj [("title", "All"), ("children", .arr
      [.obj [("component", "button"), ("name", "Button"), ("description", "Press it."),
        ("icon", "b"), ("props", .obj [("vue", "kept"), ("react", .arr [])]), ("sections", .arr
          [.obj [("section", "default"), ("name", "Plain"), ("description", "Kept."),
             ("states", "kept"), ("params", .arr ["size"]),
             ("variations", .obj
               [("core", .obj [("example", "<b>"), ("escaped", "&lt;b&gt;")]), ("vue", "kept")]),
             ("variants", .obj [])], other])],
       tab])]), ("empty", .obj [])]
    check template = .ok template ∧ merge t template = .ok merged ∧
      ∃ old new : Fields, template = .obj old ∧ merged = .obj new ∧
        List.Forall₂ (CategoryOutcome t) old new := by
  intro t tab other template merged
  have htemplate : check template = .ok template := rfl
  have hmerge : merge t template = .ok merged := rfl
  exact ⟨htemplate, hmerge, merge_precedence htemplate hmerge⟩

end Navigation

end StyleGuide
