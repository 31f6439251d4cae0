import StyleGuide.Navigation.Check
import StyleGuide.Proofs.Navigation.Filtering

/-!
# Accepted templates

What the check of a template asks for, level by level, and that a merge and a filter keep it: the
result of either is accepted where the template is.
-/

namespace StyleGuide.Navigation

variable {t : Catalog} {key : Key}

/-- A child passes exactly if it is an object that names its component and has a list of sections.
-/
theorem childFault?_eq_none_iff {child : Json} :
    childFault? key child = none ↔
      ∃ (fields : Fields) (ss : List Json), child = .obj fields ∧ fields.has "component" = true ∧
        fields.getD "sections" (.arr []) = .arr ss := by
  cases child with
  | obj fields =>
    have hhas := Fields.isSome_get? fields "component"
    rw [childFault?]
    cases hcomponent : Fields.get? fields "component" with
    | none =>
      rw [hcomponent] at hhas
      simp [← hhas]
    | some component =>
      rw [hcomponent] at hhas
      cases hsections : Fields.getD fields "sections" (.arr []) <;> simp [← hhas, hsections]
  | _ => simp [childFault?]

/-- A category passes exactly if it is an object with a list of children that pass. -/
theorem categoryFault?_eq_none_iff {category : Json} :
    categoryFault? key category = none ↔
      ∃ (fields : Fields) (cs : List Json), category = .obj fields ∧
        fields.getD "children" (.arr []) = .arr cs ∧
        ∀ child ∈ cs, childFault? key child = none := by
  cases category with
  | obj fields =>
    rw [categoryFault?]
    cases hchildren : Fields.getD fields "children" (.arr []) <;> simp [hchildren]
  | _ => simp [categoryFault?]

/-- A template passes exactly if it is an object of categories that pass. -/
theorem templateFault?_eq_none_iff {template : Json} :
    templateFault? template = none ↔
      ∃ cs : Fields, template = .obj cs ∧ ∀ c ∈ cs, categoryFault? c.1 c.2 = none := by
  cases template <;> simp [templateFault?]

theorem check_eq_ok_iff {template : Json} :
    check template = .ok template ↔ templateFault? template = none := by
  rw [check]
  cases templateFault? template <;> simp

/-! ### Merging keeps templates accepted -/

theorem childFault?_merged {child merged : Json} (hchild : childFault? key child = none)
    (h : mergeChild t key child = .ok merged) : childFault? key merged = none := by
  obtain ⟨fields, rfl, -, hmatch⟩ := mergeChild_eq_ok_iff.mp h
  cases hc : t.component? key.toJson (componentKey fields) with
  | none =>
    rw [hc] at hmatch
    rw [show merged = .obj fields from hmatch]
    exact hchild
  | some c =>
    simp only [hc] at hmatch
    obtain ⟨-, -, old, new, -, -, rfl⟩ := mergeComponent_eq_ok_iff.mp hmatch
    obtain ⟨_, ss, hfields, hcomponent, -⟩ := childFault?_eq_none_iff.mp hchild
    obtain rfl := Json.obj.inj hfields
    rw [childFault?_eq_none_iff]
    refine ⟨_, new, rfl, ?_, ?_⟩
    · rw [Fields.has_update, hcomponent, Bool.true_or]
    · exact Fields.getD_of_get? (by simp [get?_update_componentChanges]) _

theorem categoryFault?_merged {category merged : Json}
    (hcategory : categoryFault? key category = none)
    (h : mergeCategory t key category = .ok merged) : categoryFault? key merged = none := by
  obtain ⟨fields, cs, rfl, hcs, hchildren⟩ := categoryFault?_eq_none_iff.mp hcategory
  obtain ⟨_, old, new, hfields, hold, hnew, rfl⟩ := mergeCategory_eq_ok_iff.mp h
  obtain rfl := Json.obj.inj hfields
  obtain rfl : cs = old := by
    rw [children_obj, hcs] at hold
    exact Except.ok.inj hold
  by_cases hhas : fields.has "children"
  · rw [if_pos hhas, categoryFault?_eq_none_iff]
    refine ⟨_, new, rfl, Fields.getD_of_get? (Fields.get?_set_self _ _ _) _, ?_⟩
    intro child hchild
    obtain ⟨child', hmem, hmerge⟩ := exists_of_mem_mapM hnew hchild
    exact childFault?_merged (hchildren child' hmem) hmerge
  · rw [if_neg hhas]
    exact hcategory

/-- A merge gives a template that passes again. -/
theorem templateFault?_merged {template merged : Json} (htemplate : templateFault? template = none)
    (h : merge t template = .ok merged) : templateFault? merged = none := by
  obtain ⟨cs, rfl, hcs⟩ := templateFault?_eq_none_iff.mp htemplate
  obtain ⟨old, new, hold, rfl, hall⟩ := merge_eq_ok_iff.mp h
  obtain rfl := Json.obj.inj hold
  refine templateFault?_eq_none_iff.mpr ⟨new, rfl, ?_⟩
  clear h htemplate hold
  induction hall with
  | nil => simp
  | cons hc _ ih =>
    obtain ⟨hcategory, hrest⟩ := List.forall_mem_cons.mp hcs
    refine List.forall_mem_cons.mpr ⟨?_, ih hrest⟩
    rw [hc.1]
    exact categoryFault?_merged hcategory hc.2

/-! ### Filtering keeps templates accepted -/

/-- A filter changes nothing of a child that the check looks at. -/
theorem childFault?_kept {kinds : List String} {child kept : Json}
    (hchild : childFault? key child = none) (h : filterChild kinds child = .ok (some kept)) :
    childFault? key kept = none := by
  obtain ⟨fields, old, shown, rfl, -, -, -, rfl⟩ := filterChild_eq_some_iff.mp h
  obtain ⟨_, ss, hfields, hcomponent, -⟩ := childFault?_eq_none_iff.mp hchild
  obtain rfl := Json.obj.inj hfields
  rw [childFault?_eq_none_iff]
  refine ⟨_, shown, rfl, ?_, Fields.getD_of_get? (Fields.get?_set_self _ _ _) _⟩
  rw [Fields.has_set, hcomponent, Bool.or_true]

theorem categoryFault?_kept {kinds : List String} {category kept : Json}
    (hcategory : categoryFault? key category = none)
    (h : filterCategory kinds category = .ok (some kept)) : categoryFault? key kept = none := by
  obtain ⟨fields, cs, rfl, hcs, hchildren⟩ := categoryFault?_eq_none_iff.mp hcategory
  obtain ⟨_, old, shown, hfields, hold, hshown, -, rfl⟩ := filterCategory_eq_some_iff.mp h
  obtain rfl := Json.obj.inj hfields
  obtain rfl : cs = old := by
    rw [children_obj, hcs] at hold
    exact Except.ok.inj hold
  rw [categoryFault?_eq_none_iff]
  refine ⟨_, shown, rfl, Fields.getD_of_get? (Fields.get?_set_self _ _ _) _, ?_⟩
  intro child hchild
  obtain ⟨child', hmem, hkept⟩ := mem_of_keepM hshown hchild
  exact childFault?_kept (hchildren child' hmem) hkept

/-- A filter gives a template that passes again. -/
theorem templateFault?_kept {f : Filter} {merged result : Json}
    (hmerged : templateFault? merged = none) (h : filter f merged = .ok result) :
    templateFault? result = none := by
  obtain ⟨cs, rfl, hcs⟩ := templateFault?_eq_none_iff.mp hmerged
  obtain ⟨old, new, hold, rfl, hnew⟩ := filter_eq_ok_iff.mp h
  obtain rfl := Json.obj.inj hold
  refine templateFault?_eq_none_iff.mpr ⟨new, rfl, ?_⟩
  intro entry hentry
  obtain ⟨entry', hmem, hkept⟩ := mem_of_keepM hnew hentry
  obtain ⟨hkey, hkept⟩ := filterEntry_eq_some_iff.mp hkept
  rw [hkey]
  split at hkept
  · rw [hkept]
    exact hcs entry' hmem
  · exact categoryFault?_kept (hcs entry' hmem) hkept

end StyleGuide.Navigation
