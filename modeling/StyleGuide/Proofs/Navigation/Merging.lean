import StyleGuide.Navigation.Merge
import StyleGuide.Proofs.Json.Fields
import StyleGuide.Proofs.Outcomes

/-!
# What a merge does

For each step of a merge, one statement says when it goes through and what it gives. A section and a
child are merged by setting fields: `sectionChanges` and `componentChanges` list them in order. All
that a merge reads from the template is unchanged by these settings or ends up with the value that a
second merge would give it, so merging again sets the same fields to the same values
(`merge_merged`).
-/

namespace StyleGuide

/-! ### Steps into a value -/

namespace Json

variable {v : Json} {fields : Fields} {k : Key}

theorem asObject_eq_ok_iff : v.asObject = .ok fields ↔ v = .obj fields := by
  cases v <;> simp [asObject]

/-- A value that can be a key is given back by it. -/
theorem toJson_of_key? : ∀ {v : Json} {k : Key}, v.key? = some k → k.toJson = v
  | .null, k, h | .bool _, k, h | .int _, k, h | .double _, k, h | .str _, k, h => by
    obtain rfl := Option.some.inj h
    rfl
  | .arr _, k, h | .obj _, k, h => by simp [key?] at h
  | .code source escaped, k, h => by
    rw [key?] at h
    obtain ⟨k₁, h₁, h⟩ := Option.bind_eq_some_iff.mp h
    obtain ⟨k₂, h₂, h⟩ := Option.bind_eq_some_iff.mp h
    obtain rfl := Option.some.inj h
    rw [Key.toJson, toJson_of_key? h₁, toJson_of_key? h₂]

/-- A look-up goes through if the value is a key, and is one by the value itself. -/
theorem exists_asKey_iff {P : Json → Prop} :
    (∃ k, v.asKey = .ok k ∧ P k.toJson) ↔ v.isKey = true ∧ P v := by
  rw [isKey]
  cases h : v.key? with
  | none => simp [asKey, h]
  | some k => simp [asKey, h, toJson_of_key? h]

end Json

namespace Fields

/-- Where the key is given, there is an object. -/
def IsMapAt (fields : Fields) (key : Key) : Prop :=
  ∀ v, fields.get? key = some v → ∃ map : Fields, v = .obj map

/-- The fields of the object at a key; none if there is no object. -/
def mapAt (fields : Fields) (key : Key) : Fields :=
  match fields.get? key with
  | some (.obj map) => map
  | _ => []

variable {fields map : Fields} {key : Key}

theorem mapAt_of_get? (h : fields.get? key = some (.obj map)) : fields.mapAt key = map := by
  rw [mapAt, h]

theorem isMapAt_of_get? (h : fields.get? key = some (.obj map)) : fields.IsMapAt key := by
  intro v hv
  exact ⟨map, Option.some.inj (hv.symm.trans h)⟩

theorem isMapAt_of_lacks (h : fields.has key = false) : fields.IsMapAt key := by
  intro v hv
  rw [get?_eq_none h] at hv
  cases hv

/-- A field can be copied if it is an object or is not there, which counts as an empty one. -/
theorem asCopy_getD_eq_ok_iff :
    (fields.getD key (.obj [])).asCopy = .ok map ↔ fields.IsMapAt key ∧ map = fields.mapAt key := by
  rw [getD, IsMapAt, mapAt]
  cases h : fields.get? key with
  | none => simp [Json.asCopy, eq_comm]
  | some v => cases v <;> simp [Json.asCopy, eq_comm]

theorem get?_compact_of_not_null {value : Json} (h : fields.get? key = some value)
    (hvalue : value.isNull = false) : Fields.get? (compact fields) key = some value := by
  induction fields with
  | nil => simp [get?] at h
  | cons f rest ih =>
    rw [get?_cons] at h
    rw [compact, List.filter_cons]
    by_cases hf : f.1.same key
    · rw [if_pos hf] at h
      obtain rfl := Option.some.inj h
      simp [hvalue, get?_cons, hf]
    · rw [if_neg hf] at h
      split
      · rw [get?_cons, if_neg hf]
        exact ih h
      · exact ih h

theorem has_compact_of_lacks (h : fields.has key = false) :
    Fields.has (compact fields) key = false := by
  rw [has, List.any_eq_false] at h ⊢
  intro f hf
  exact h f (List.mem_filter.mp hf).1

end Fields

namespace Navigation

/-! ### Sections -/

def exampleFields (s : Section) : Fields :=
  s.examples.map fun (kind, e) => (.name kind.word, e.shown)

theorem get?_fields_variations (s : Section) :
    Fields.get? s.fields "variations" = some (.obj (exampleFields s)) := by
  apply Fields.get?_compact_of_not_null
  · simp [Fields.get?_cons, exampleFields]
  · rfl

theorem has_fields_examples (s : Section) : Fields.has s.fields "examples" = false := by
  apply Fields.has_compact_of_lacks
  simp [Fields.has]

/-- A documented section has its own key, unless that is null. -/
theorem get?_update_fields_section (template : Fields) (s : Section) :
    Fields.get? (template.update s.fields) "section" =
      if s.key.isNull then template.get? "section" else some s.key := by
  have hrest : ∀ rest : Fields, rest.has "section" = false →
      Fields.get? (template.update (compact (("section", s.key) :: rest))) "section" =
        if s.key.isNull then template.get? "section" else some s.key := by
    intro rest hrest
    have hlacks := Fields.has_compact_of_lacks hrest
    rw [compact, List.filter_cons]
    by_cases hkey : s.key.isNull
    · simp only [hkey, Bool.not_true, if_true, if_false, Bool.false_eq_true]
      exact Fields.get?_update_of_lacks hlacks
    · simp only [hkey, Bool.not_false, if_true, if_false, Bool.false_eq_true]
      rw [Fields.update_cons]
      exact (Fields.get?_update_of_lacks hlacks).trans (Fields.get?_set_self _ _ _)
  apply hrest
  simp [Fields.has]

/-- Two fields of examples can be merged exactly if both are objects where they are given. -/
theorem mergeExamples_eq_ok_iff {template documented merged result : Fields} {key : Key} :
    mergeExamples template documented merged key = .ok result ↔
      template.IsMapAt key ∧ documented.IsMapAt key ∧
        result = if template.has key || documented.has key
          then merged.set key (.obj ((template.mapAt key).update (documented.mapAt key)))
          else merged := by
  rw [mergeExamples]
  by_cases h : template.has key || documented.has key
  · simp only [if_pos h, bind_eq_ok_iff, Fields.asCopy_getD_eq_ok_iff]
    constructor
    · rintro ⟨old, ⟨hold, rfl⟩, new, ⟨hnew, rfl⟩, hresult⟩
      exact ⟨hold, hnew, (Except.ok.inj hresult).symm⟩
    · rintro ⟨hold, hnew, rfl⟩
      exact ⟨_, ⟨hold, rfl⟩, _, ⟨hnew, rfl⟩, rfl⟩
  · rw [if_neg h, if_neg h]
    simp only [Bool.or_eq_true, not_or, Bool.not_eq_true] at h
    constructor
    · intro hresult
      exact ⟨Fields.isMapAt_of_lacks h.1, Fields.isMapAt_of_lacks h.2,
        (Except.ok.inj hresult).symm⟩
    · rintro ⟨-, -, rfl⟩
      rfl

/-- The examples that only a template can have, as it has them. -/
def keptExamples (template : Fields) : Fields :=
  if template.has "examples" then [("examples", .obj (template.mapAt "examples"))] else []

theorem update_keptExamples (fields template : Fields) :
    fields.update (keptExamples template) =
      if template.has "examples" then fields.set "examples" (.obj (template.mapAt "examples"))
      else fields := by
  rw [keptExamples]
  split <;> rfl

/-- The fields that merging sets in a section of a template, in order. -/
def sectionChanges (template : Fields) (s : Section) : Fields :=
  s.fields ++
    [(.name "name", preferLabel s.name template "name"),
      (.name "description", preferLabel s.description template "description"),
      (.name "variations", .obj ((template.mapAt "variations").update (exampleFields s)))] ++
    keptExamples template

/-- A section can be merged if its examples are objects, and is then updated. -/
theorem mergeSection_eq_ok_iff {template : Fields} {s : Section} {merged : Json} :
    mergeSection template s = .ok merged ↔
      (∀ key ∈ exampleMaps, template.IsMapAt key) ∧
        merged = .obj (template.update (sectionChanges template s)) := by
  have hvariations := Fields.isMapAt_of_get? (get?_fields_variations s)
  have hexamples := Fields.isMapAt_of_lacks (has_fields_examples s)
  have hmap := Fields.mapAt_of_get? (get?_fields_variations s)
  have hhas := Fields.has_of_get? (get?_fields_variations s)
  have hnone : Fields.mapAt s.fields "examples" = [] := by
    rw [Fields.mapAt, Fields.get?_eq_none (has_fields_examples s)]
  simp only [mergeSection, exampleMaps, List.foldlM_cons, List.foldlM_nil, bind_eq_ok_iff,
    mergeExamples_eq_ok_iff, hvariations, hexamples, hmap, hhas, hnone, true_and, Bool.or_true,
    if_true,
    has_fields_examples, Bool.or_false, Fields.update_nil, List.forall_mem_cons, List.not_mem_nil,
    false_implies, implies_true, and_true]
  rw [sectionChanges, Fields.update_append, Fields.update_append, update_keptExamples]
  constructor
  · rintro ⟨result, ⟨_, ⟨hv, rfl⟩, _, ⟨he, rfl⟩, hresult⟩, hmerged⟩
    obtain rfl := Except.ok.inj hresult
    exact ⟨⟨hv, he⟩, (Except.ok.inj hmerged).symm⟩
  · rintro ⟨⟨hv, he⟩, rfl⟩
    exact ⟨_, ⟨_, ⟨hv, rfl⟩, _, ⟨he, rfl⟩, rfl⟩, rfl⟩

/-! ### Merging a section again -/

section Again

variable {template : Fields} {s : Section}

/-- A key that no label and no example map has is as in the template with the documented fields. -/
theorem get?_update_sectionChanges (template : Fields) (s : Section) (key : Key) :
    Fields.get? (template.update (sectionChanges template s)) key =
      if Key.same "examples" key && template.has "examples" then
        some (.obj (template.mapAt "examples"))
      else if Key.same "variations" key then
        some (.obj ((template.mapAt "variations").update (exampleFields s)))
      else if Key.same "description" key then
        some (preferLabel s.description template "description")
      else if Key.same "name" key then some (preferLabel s.name template "name")
      else Fields.get? (template.update s.fields) key := by
  rw [sectionChanges, Fields.update_append, Fields.update_append, update_keptExamples]
  by_cases h : template.has "examples"
  · simp only [h, if_true, Fields.get?_set, Fields.update_cons, Fields.update_nil, Bool.and_true]
  · simp only [h, if_false, Fields.get?_set, Fields.update_cons, Fields.update_nil, Bool.and_false,
      Bool.false_eq_true]

theorem preferLabel_of_get? {documented : Json} {fields : Fields} {key : Key}
    (h : fields.get? key = some (preferLabel documented template key)) :
    preferLabel documented fields key = preferLabel documented template key := by
  rw [preferLabel, Fields.getD_of_get? h, preferLabel]
  split <;> rfl

theorem keptExamples_update :
    keptExamples (template.update (sectionChanges template s)) = keptExamples template := by
  have hget := get?_update_sectionChanges template s "examples"
  by_cases h : template.has "examples"
  · have hget : Fields.get? (template.update (sectionChanges template s)) "examples" =
        some (.obj (template.mapAt "examples")) := by simpa [h] using hget
    rw [keptExamples, Fields.has_of_get? hget, Fields.mapAt_of_get? hget, keptExamples, if_pos rfl,
      if_pos h]
  · have hget : Fields.get? (template.update (sectionChanges template s)) "examples" =
        template.get? "examples" := by
      simpa [h, Fields.get?_update_of_lacks (has_fields_examples s)] using hget
    rw [keptExamples, ← Fields.isSome_get?, hget, Fields.isSome_get?, if_neg h, keptExamples,
      if_neg h]

/-- The settings of a merge are those of the next one. -/
theorem sectionChanges_update :
    sectionChanges (template.update (sectionChanges template s)) s = sectionChanges template s := by
  have hname : preferLabel s.name (template.update (sectionChanges template s)) "name" =
      preferLabel s.name template "name" :=
    preferLabel_of_get? (by simp [get?_update_sectionChanges])
  have hdescription :
      preferLabel s.description (template.update (sectionChanges template s)) "description" =
        preferLabel s.description template "description" :=
    preferLabel_of_get? (by simp [get?_update_sectionChanges])
  have hvariations : Fields.mapAt (template.update (sectionChanges template s)) "variations" =
      (template.mapAt "variations").update (exampleFields s) :=
    Fields.mapAt_of_get? (by simp [get?_update_sectionChanges])
  rw [sectionChanges, hname, hdescription, hvariations, keptExamples_update, Fields.update_update,
    sectionChanges]

/-- Examples are told apart from other fields after a merge. -/
theorem isMapAt_update_sectionChanges (h : ∀ key ∈ exampleMaps, template.IsMapAt key) :
    ∀ key ∈ exampleMaps, Fields.IsMapAt (template.update (sectionChanges template s)) key := by
  intro key hkey
  rw [exampleMaps, List.mem_cons, List.mem_singleton] at hkey
  rcases hkey with rfl | rfl
  · have hget : Fields.get? (template.update (sectionChanges template s)) "variations" =
        some (.obj ((template.mapAt "variations").update (exampleFields s))) := by
      simp [get?_update_sectionChanges]
    exact Fields.isMapAt_of_get? hget
  · intro v hv
    rw [get?_update_sectionChanges] at hv
    by_cases hhas : template.has "examples"
    · exact ⟨template.mapAt "examples", by simpa [hhas, eq_comm] using hv⟩
    · apply h "examples" (by simp [exampleMaps])
      simpa [hhas, Fields.get?_update_of_lacks (has_fields_examples s)] using hv

/-- A merged section is not changed by merging it again. -/
theorem mergeSection_merged {merged : Fields} (h : mergeSection template s = .ok (.obj merged)) :
    mergeSection merged s = .ok (.obj merged) := by
  obtain ⟨hmaps, hmerged⟩ := mergeSection_eq_ok_iff.mp h
  obtain rfl := Json.obj.inj hmerged
  rw [mergeSection_eq_ok_iff]
  refine ⟨isMapAt_update_sectionChanges hmaps, ?_⟩
  rw [sectionChanges_update, Fields.update_update]

end Again

/-! ### Matching sections -/

theorem section?_congr {c : Component} {v w : Json} (h : v.same w = true) :
    c.section? v = c.section? w := by
  rw [Component.section?, Component.section?]
  congr 1
  funext s
  exact Json.same_congr_right h

def sectionKey (template : Fields) : Json := template.getD "section" (.str "")

/-- A section is merged with the documented one of its key, or stays as it is. -/
theorem mergeSection?_eq_ok_iff {c : Component} {template merged : Json} :
    mergeSection? c template = .ok merged ↔
      ∃ fields : Fields, template = .obj fields ∧ (sectionKey fields).isKey = true ∧
        match c.section? (sectionKey fields) with
        | some s => mergeSection fields s = .ok merged
        | none => merged = template := by
  rw [mergeSection?, bind_eq_ok_iff]
  apply exists_congr
  intro fields
  rw [Json.asObject_eq_ok_iff, bind_eq_ok_iff]
  apply and_congr_right
  intro _
  have hmatch := Json.exists_asKey_iff (v := sectionKey fields) (P := fun v =>
    match c.section? v with
    | some s => mergeSection fields s = .ok merged
    | none => merged = template)
  rw [← hmatch]
  apply exists_congr
  intro k
  apply and_congr_right
  intro _
  cases c.section? k.toJson with
  | none => exact pure_eq_ok_iff
  | some s => exact Iff.rfl

theorem sectionFault?_eq_none_iff {s : Section} :
    sectionFault? s = none ↔ s.hasExamples = true ∧ s.key.isKey = true := by
  rw [sectionFault?]
  cases s.hasExamples <;> cases s.key.isKey <;> simp

/-- A merged section is matched by its own key, which is the same as before. -/
theorem section?_merged {c : Component} {fields : Fields} {s : Section}
    (hs : c.section? (sectionKey fields) = some s) (hkey : (sectionKey fields).isKey = true)
    (hfault : sectionFault? s = none) :
    (sectionKey (fields.update (sectionChanges fields s))).isKey = true ∧
      c.section? (sectionKey (fields.update (sectionChanges fields s))) = some s := by
  have hget : Fields.get? (fields.update (sectionChanges fields s)) "section" =
      if s.key.isNull then fields.get? "section" else some s.key := by
    rw [← get?_update_fields_section]
    simp [get?_update_sectionChanges]
  by_cases hnull : s.key.isNull
  · rw [if_pos hnull] at hget
    have hsame : sectionKey (fields.update (sectionChanges fields s)) = sectionKey fields := by
      rw [sectionKey, Fields.getD, hget, ← Fields.getD, sectionKey]
    rw [hsame]
    exact ⟨hkey, hs⟩
  · rw [if_neg hnull] at hget
    have hown : sectionKey (fields.update (sectionChanges fields s)) = s.key :=
      Fields.getD_of_get? hget _
    rw [hown]
    have hsame : s.key.same (sectionKey fields) = true := by
      rw [Component.section?] at hs
      simpa using List.find?_some hs
    exact ⟨(sectionFault?_eq_none_iff.mp hfault).2, by rw [section?_congr hsame, hs]⟩

/-- Merging a section twice is merging it once. -/
theorem mergeSection?_merged {c : Component} {template merged : Json}
    (hc : ∀ s ∈ c.sections, sectionFault? s = none)
    (h : mergeSection? c template = .ok merged) : mergeSection? c merged = .ok merged := by
  obtain ⟨fields, rfl, hkey, hmatch⟩ := mergeSection?_eq_ok_iff.mp h
  cases hs : c.section? (sectionKey fields) with
  | none =>
    rw [hs] at hmatch
    rw [show merged = .obj fields from hmatch] at h ⊢
    exact h
  | some s =>
    simp only [hs] at hmatch
    obtain ⟨hmaps, rfl⟩ := mergeSection_eq_ok_iff.mp hmatch
    have hfault := hc s (List.mem_of_find?_eq_some hs)
    obtain ⟨hkey', hs'⟩ := section?_merged hs hkey hfault
    rw [mergeSection?_eq_ok_iff]
    refine ⟨_, rfl, hkey', ?_⟩
    rw [hs']
    exact mergeSection_merged hmatch

/-! ### Children -/

/-- The fields that merging sets in a child of a template, in order. -/
def componentChanges (template : Fields) (c : Component) (sections : List Json) : Fields :=
  [("name", preferLabel c.name template "name"),
    ("description", preferLabel c.description template "description"),
    ("sections", .arr sections),
    ("props", .obj ((template.mapAt "props").update c.tableFields))]

/-- A child is merged field by field, and section by section. -/
theorem mergeComponent_eq_ok_iff {template : Fields} {c : Component} {merged : Json} :
    mergeComponent template c = .ok merged ↔
      (∀ s ∈ c.sections, sectionFault? s = none) ∧ template.IsMapAt "props" ∧
        ∃ old new, (template.getD "sections" (.arr [])).elements = .ok old ∧
          old.mapM (mergeSection? c) = .ok new ∧
          merged = .obj (template.update (componentChanges template c new)) := by
  rw [mergeComponent]
  cases hfault : c.sections.findSome? sectionFault? with
  | some fault =>
    obtain ⟨s, hs, hsfault⟩ := List.exists_of_findSome?_eq_some hfault
    constructor
    · intro h
      simp [bind, Except.bind, throw, throwThe, MonadExceptOf.throw] at h
    · rintro ⟨hno, -⟩
      rw [hno s hs] at hsfault
      cases hsfault
  | none =>
    rw [List.findSome?_eq_none_iff] at hfault
    dsimp only
    constructor
    · intro h
      obtain ⟨old, hold, h⟩ := bind_eq_ok_iff.mp h
      obtain ⟨new, hnew, h⟩ := bind_eq_ok_iff.mp h
      obtain ⟨tables, htables, h⟩ := bind_eq_ok_iff.mp h
      obtain ⟨hprops, rfl⟩ := Fields.asCopy_getD_eq_ok_iff.mp htables
      exact ⟨hfault, hprops, old, new, hold, hnew, (Except.ok.inj h).symm⟩
    · rintro ⟨-, hprops, old, new, hold, hnew, rfl⟩
      have htables := Fields.asCopy_getD_eq_ok_iff.mpr ⟨hprops, rfl⟩
      refine bind_eq_ok_iff.mpr ⟨old, hold, ?_⟩
      exact bind_eq_ok_iff.mpr ⟨new, hnew, bind_eq_ok_iff.mpr ⟨_, htables, rfl⟩⟩

theorem get?_update_componentChanges (template : Fields) (c : Component) (sections : List Json)
    (key : Key) :
    Fields.get? (template.update (componentChanges template c sections)) key =
      if Key.same "props" key then some (.obj ((template.mapAt "props").update c.tableFields))
      else if Key.same "sections" key then some (.arr sections)
      else if Key.same "description" key then
        some (preferLabel c.description template "description")
      else if Key.same "name" key then some (preferLabel c.name template "name")
      else template.get? key := by
  simp only [componentChanges, Fields.update_cons, Fields.update_nil, Fields.get?_set]

/-- A second merge makes the changes that the first one made. -/
theorem componentChanges_update (template : Fields) (c : Component) (sections : List Json) :
    componentChanges (template.update (componentChanges template c sections)) c sections =
      componentChanges template c sections := by
  have hname : preferLabel c.name (template.update (componentChanges template c sections)) "name" =
      preferLabel c.name template "name" :=
    preferLabel_of_get? (by simp [get?_update_componentChanges])
  have hdescription : preferLabel c.description
      (template.update (componentChanges template c sections)) "description" =
        preferLabel c.description template "description" :=
    preferLabel_of_get? (by simp [get?_update_componentChanges])
  have hprops : Fields.mapAt (template.update (componentChanges template c sections)) "props" =
      (template.mapAt "props").update c.tableFields :=
    Fields.mapAt_of_get? (by simp [get?_update_componentChanges])
  rw [componentChanges, hname, hdescription, hprops, Fields.update_update, componentChanges]

theorem mergeComponent_merged {template merged : Fields} {c : Component}
    (h : mergeComponent template c = .ok (.obj merged)) :
    mergeComponent merged c = .ok (.obj merged) := by
  obtain ⟨hfault, hprops, old, new, hold, hnew, hmerged⟩ := mergeComponent_eq_ok_iff.mp h
  obtain rfl := Json.obj.inj hmerged
  have hget := get?_update_componentChanges template c new
  rw [mergeComponent_eq_ok_iff]
  refine ⟨hfault, ?_, new, new, ?_, ?_, ?_⟩
  · have hmap : Fields.get? (template.update (componentChanges template c new)) "props" =
        some (.obj ((template.mapAt "props").update c.tableFields)) := by simp [hget]
    exact Fields.isMapAt_of_get? hmap
  · rw [Fields.getD_of_get? (show _ = some (.arr new) by simp [hget])]
    rfl
  · apply mapM_eq_self
    intro s hs
    obtain ⟨s', -, hs'⟩ := exists_of_mem_mapM hnew hs
    exact mergeSection?_merged hfault hs'
  · rw [componentChanges_update, Fields.update_update]

def componentKey (template : Fields) : Json := template.getD "component" (.str "")

/-- A child is looked up only where its category is documented, and has to have a key there. -/
theorem childComponent?_eq_ok_iff {t : Catalog} {category : Key} {child : Json}
    {found : Option Component} :
    childComponent? t category child = .ok found ↔
      ∃ fields : Fields, child = .obj fields ∧
        ((t.category? category.toJson).isSome = true → (componentKey fields).isKey = true) ∧
        found = t.component? category.toJson (componentKey fields) := by
  rw [childComponent?, bind_eq_ok_iff]
  apply exists_congr
  intro fields
  rw [Json.asObject_eq_ok_iff, Catalog.component?]
  apply and_congr_right
  intro _
  cases t.category? category.toJson with
  | none =>
    simp only [Option.isSome_none, Bool.false_eq_true, false_implies, true_and, Option.bind_none]
    exact pure_eq_ok_iff
  | some c =>
    simp only [Option.isSome_some, true_implies, Option.bind_some, bind_eq_ok_iff, pure_eq_ok_iff]
    exact Json.exists_asKey_iff (P := fun v => found = c.component? v)

theorem mergeChild_eq_ok_iff {t : Catalog} {category : Key} {child merged : Json} :
    mergeChild t category child = .ok merged ↔
      ∃ fields : Fields, child = .obj fields ∧
        ((t.category? category.toJson).isSome = true → (componentKey fields).isKey = true) ∧
        match t.component? category.toJson (componentKey fields) with
        | some c => mergeComponent fields c = .ok merged
        | none => merged = child := by
  rw [mergeChild, bind_eq_ok_iff]
  constructor
  · rintro ⟨found, hfound, h⟩
    obtain ⟨fields, rfl, hkey, rfl⟩ := childComponent?_eq_ok_iff.mp hfound
    refine ⟨fields, rfl, hkey, ?_⟩
    cases hc : t.component? category.toJson (componentKey fields) with
    | none =>
      rw [hc] at h
      exact pure_eq_ok_iff.mp h
    | some c =>
      rw [hc] at h
      exact h
  · rintro ⟨fields, rfl, hkey, h⟩
    refine ⟨_, childComponent?_eq_ok_iff.mpr ⟨fields, rfl, hkey, rfl⟩, ?_⟩
    cases hc : t.component? category.toJson (componentKey fields) with
    | none =>
      rw [hc] at h
      exact pure_eq_ok_iff.mpr h
    | some c =>
      rw [hc] at h
      exact h

/-- Merging a child twice is merging it once. -/
theorem mergeChild_merged {t : Catalog} {category : Key} {child merged : Json}
    (h : mergeChild t category child = .ok merged) : mergeChild t category merged = .ok merged := by
  obtain ⟨fields, rfl, hkey, hmatch⟩ := mergeChild_eq_ok_iff.mp h
  cases hc : t.component? category.toJson (componentKey fields) with
  | none =>
    rw [hc] at hmatch
    rw [show merged = .obj fields from hmatch] at h ⊢
    exact h
  | some c =>
    simp only [hc] at hmatch
    obtain ⟨-, -, old, new, -, -, rfl⟩ := mergeComponent_eq_ok_iff.mp hmatch
    have hsame : componentKey (fields.update (componentChanges fields c new)) =
        componentKey fields := by
      rw [componentKey, Fields.getD, get?_update_componentChanges]
      simp [componentKey, Fields.getD]
    rw [mergeChild_eq_ok_iff]
    refine ⟨_, rfl, ?_, ?_⟩
    · rw [hsame]
      exact hkey
    · rw [hsame, hc]
      exact mergeComponent_merged hmatch

/-! ### Categories and templates -/

theorem mergeCategory_eq_ok_iff {t : Catalog} {key : Key} {category merged : Json} :
    mergeCategory t key category = .ok merged ↔
      ∃ (fields : Fields) (old new : List Json), category = .obj fields ∧
        children category = .ok old ∧ old.mapM (mergeChild t key) = .ok new ∧
        merged = .obj
          (if fields.has "children" then fields.set "children" (.arr new) else fields) := by
  simp only [mergeCategory, bind_eq_ok_iff, pure_eq_ok_iff, Json.asObject_eq_ok_iff]
  constructor
  · rintro ⟨fields, hfields, old, hold, new, hnew, hmerged⟩
    exact ⟨fields, old, new, hfields, hold, hnew, hmerged⟩
  · rintro ⟨fields, old, new, hfields, hold, hnew, hmerged⟩
    exact ⟨fields, hfields, old, hold, new, hnew, hmerged⟩

theorem children_obj (fields : Fields) :
    children (.obj fields) = (fields.getD "children" (.arr [])).elements := rfl

theorem children_set (fields : Fields) (cs : List Json) :
    children (.obj (fields.set "children" (.arr cs))) = .ok cs := by
  rw [children_obj, Fields.getD_of_get? (Fields.get?_set_self fields "children" (.arr cs))]
  rfl

/-- The children of a merged category are the merged children. -/
theorem children_merged {t : Catalog} {key : Key} {category merged : Json}
    (h : mergeCategory t key category = .ok merged) :
    ∃ old new : List Json, children category = .ok old ∧ old.mapM (mergeChild t key) = .ok new ∧
      children merged = .ok new := by
  obtain ⟨fields, old, new, rfl, hold, hnew, rfl⟩ := mergeCategory_eq_ok_iff.mp h
  refine ⟨old, new, hold, hnew, ?_⟩
  by_cases hhas : fields.has "children"
  · rw [if_pos hhas, children_set]
  · -- A category without children has none after the merge.
    have hnone : children (.obj fields) = .ok [] := by
      rw [children_obj, Fields.getD, Fields.get?_eq_none (by simpa using hhas)]
      rfl
    obtain rfl : old = [] := Except.ok.inj (hold.symm.trans hnone)
    obtain rfl : new = [] := pure_eq_ok_iff.mp hnew
    rw [if_neg hhas, hnone]

theorem mergeCategory_merged {t : Catalog} {key : Key} {category merged : Json}
    (h : mergeCategory t key category = .ok merged) :
    mergeCategory t key merged = .ok merged := by
  obtain ⟨fields, old, new, rfl, hold, hnew, rfl⟩ := mergeCategory_eq_ok_iff.mp h
  have hfixed : new.mapM (mergeChild t key) = .ok new := by
    apply mapM_eq_self
    intro child hchild
    obtain ⟨child', -, hchild'⟩ := exists_of_mem_mapM hnew hchild
    exact mergeChild_merged hchild'
  by_cases hhas : fields.has "children"
  · rw [if_pos hhas, mergeCategory_eq_ok_iff]
    refine ⟨_, new, new, rfl, children_set fields new, hfixed, ?_⟩
    have hset := Fields.get?_set_self fields "children" (.arr new)
    rw [if_pos (Fields.has_of_get? hset), Fields.set_eq_self hset]
  · rw [if_neg hhas] at h ⊢
    exact h

/-- A template is merged category by category, under the same keys. -/
theorem merge_eq_ok_iff {t : Catalog} {template merged : Json} :
    merge t template = .ok merged ↔
      ∃ old new : Fields, template = .obj old ∧ merged = .obj new ∧
        List.Forall₂ (fun c d => d.1 = c.1 ∧ mergeCategory t c.1 c.2 = .ok d.2) old new := by
  have hpair : ∀ c d : Key × Json,
      (do return (c.1, ← mergeCategory t c.1 c.2) : Except ShapeFault (Key × Json)) = .ok d ↔
        d.1 = c.1 ∧ mergeCategory t c.1 c.2 = .ok d.2 := by
    rintro c ⟨key, category⟩
    simp only [bind_eq_ok_iff, pure_eq_ok_iff, Prod.mk.injEq]
    constructor
    · rintro ⟨_, hmerge, hkey, rfl⟩
      exact ⟨hkey, hmerge⟩
    · rintro ⟨hkey, hmerge⟩
      exact ⟨category, hmerge, hkey, rfl⟩
  simp only [merge, bind_eq_ok_iff, pure_eq_ok_iff, Json.asObject_eq_ok_iff, mapM_eq_ok_iff, hpair]
  constructor
  · rintro ⟨old, hold, new, hnew, hmerged⟩
    exact ⟨old, new, hold, hmerged, hnew⟩
  · rintro ⟨old, new, hold, hmerged, hnew⟩
    exact ⟨old, hold, new, hnew, hmerged⟩

/-- **Merging twice is merging once.** -/
theorem merge_merged {t : Catalog} {template merged : Json} (h : merge t template = .ok merged) :
    merge t merged = .ok merged := by
  obtain ⟨old, new, -, rfl, hall⟩ := merge_eq_ok_iff.mp h
  refine merge_eq_ok_iff.mpr ⟨new, new, rfl, rfl, ?_⟩
  clear h
  induction hall with
  | nil => exact .nil
  | cons hc _ ih =>
    refine .cons ⟨rfl, ?_⟩ ih
    rw [hc.1]
    exact mergeCategory_merged hc.2

end Navigation

end StyleGuide
