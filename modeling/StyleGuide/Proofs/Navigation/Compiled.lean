import StyleGuide.Compile
import StyleGuide.Proofs.Navigation.Accepted

/-!
# Compiled documentation as a template

Compiled documentation has the shape of a template, and it may be used as one. The main statement,
`compile_compiled`, is that nothing changes then: the documentation of the same fragments for it is
itself.

Merging twice is merging once, and so is filtering. What is left to show is that the two do not
disturb each other: a filter takes sections, children and categories away from a merged template,
and what stays is still as a merge would leave it (`merge_kept`).
-/

namespace StyleGuide

namespace Navigation

variable {t : Catalog} {key : Key} {kinds : List String}

/-! ### Merging what a filter has left -/

theorem preferLabel_set_of_ne {documented value : Json} {fields : Fields} {key name : Key}
    (h : key.same name = false) :
    preferLabel documented (fields.set key value) name = preferLabel documented fields name := by
  rw [preferLabel, Fields.getD_set_of_ne h, preferLabel]

/-- A child that a merge leaves as it is may lose sections. -/
theorem mergeComponent_set_sections {fields : Fields} {c : Component} {ss shown : List Json}
    (h : mergeComponent fields c = .ok (.obj fields)) (hss : filteredSections fields = .ok ss)
    (hshown : ∀ s ∈ shown, s ∈ ss) :
    mergeComponent (fields.set "sections" (.arr shown)) c =
      .ok (.obj (fields.set "sections" (.arr shown))) := by
  obtain ⟨hfault, hprops, old, new, hold, hnew, hfields⟩ := mergeComponent_eq_ok_iff.mp h
  -- The child has the values that the merge sets, and its sections are merged already.
  have hget := get?_update_componentChanges fields c new
  rw [← Json.obj.inj hfields] at hget
  have hsections : fields.get? "sections" = some (.arr new) := (hget "sections").trans (by simp)
  rw [Fields.getD_of_get? hsections] at hold
  obtain rfl : new = old := Except.ok.inj hold
  rw [filteredSections_of_get? hsections] at hss
  obtain rfl : new = ss := Except.ok.inj hss
  have hfixed := List.forall₂_same.mp (mapM_eq_ok_iff.mp hnew)
  rw [mergeComponent_eq_ok_iff]
  refine ⟨hfault, ?_, shown, shown, ?_, mapM_eq_self fun s hs => hfixed s (hshown s hs), ?_⟩
  · intro v hv
    rw [Fields.get?_set_of_ne (by simp)] at hv
    exact hprops v hv
  · rw [Fields.getD_of_get? (Fields.get?_set_self fields "sections" (.arr shown))]
    rfl
  · have hset : ∀ f ∈ componentChanges (fields.set "sections" (.arr shown)) c shown,
        Fields.get? (fields.set "sections" (.arr shown)) f.1 = some f.2 := by
      simp only [componentChanges, List.forall_mem_cons, List.not_mem_nil, false_implies,
        implies_true, and_true]
      refine ⟨?_, ?_, Fields.get?_set_self _ _ _, ?_⟩
      · rw [Fields.get?_set_of_ne (by simp), preferLabel_set_of_ne (by simp)]
        exact (hget "name").trans (by simp)
      · rw [Fields.get?_set_of_ne (by simp), preferLabel_set_of_ne (by simp)]
        exact (hget "description").trans (by simp)
      · rw [Fields.get?_set_of_ne (by simp), Fields.mapAt, Fields.get?_set_of_ne (by simp),
          ← Fields.mapAt]
        exact (hget "props").trans (by simp)
    rw [Fields.update_eq_self_of_get? hset]

/-- A child that a merge leaves alone is left alone once sections are gone. -/
theorem mergeChild_kept {child kept : Json} (h : mergeChild t key child = .ok child)
    (hkept : filterChild kinds child = .ok (some kept)) : mergeChild t key kept = .ok kept := by
  obtain ⟨fields, old, shown, rfl, hold, hshown, -, rfl⟩ := filterChild_eq_some_iff.mp hkept
  obtain ⟨_, hfields, hkey, hmatch⟩ := mergeChild_eq_ok_iff.mp h
  obtain rfl := Json.obj.inj hfields
  have hsame : componentKey (fields.set "sections" (.arr shown)) = componentKey fields :=
    Fields.getD_set_of_ne (by simp) _
  rw [mergeChild_eq_ok_iff]
  refine ⟨_, rfl, ?_, ?_⟩
  · rw [hsame]
    exact hkey
  · rw [hsame]
    cases hc : t.component? key.toJson (componentKey fields) with
    | none => rfl
    | some c =>
      simp only [hc] at hmatch
      exact mergeComponent_set_sections hmatch hold (shownSections_shown hshown).1

/-- The children of a category that a merge leaves as it is are left as they are. -/
theorem mergeChild_of_mergeCategory {category : Json} {cs : List Json}
    (h : mergeCategory t key category = .ok category) (hcs : children category = .ok cs) :
    ∀ child ∈ cs, mergeChild t key child = .ok child := by
  obtain ⟨old, new, hold, hnew, hmerged⟩ := children_merged h
  obtain rfl : old = cs := Except.ok.inj (hold.symm.trans hcs)
  obtain rfl : old = new := Except.ok.inj (hold.symm.trans hmerged)
  exact List.forall₂_same.mp (mapM_eq_ok_iff.mp hnew)

theorem mergeCategory_kept {category kept : Json} (h : mergeCategory t key category = .ok category)
    (hkept : filterCategory kinds category = .ok (some kept)) :
    mergeCategory t key kept = .ok kept := by
  obtain ⟨fields, old, shown, rfl, hold, hshown, -, rfl⟩ := filterCategory_eq_some_iff.mp hkept
  have hset := Fields.get?_set_self fields "children" (.arr shown)
  rw [mergeCategory_eq_ok_iff]
  refine ⟨_, shown, shown, rfl, children_set fields shown, mapM_eq_self ?_, ?_⟩
  · intro child hchild
    obtain ⟨child', hmem, hchild'⟩ := mem_of_keepM hshown hchild
    exact mergeChild_kept (mergeChild_of_mergeCategory h hold child' hmem) hchild'
  · rw [if_pos (Fields.has_of_get? hset), Fields.set_eq_self hset]

/-- What a filter leaves of a merged template is merged. -/
theorem merge_kept {f : Filter} {merged result : Json} (h : merge t merged = .ok merged)
    (hresult : filter f merged = .ok result) : merge t result = .ok result := by
  obtain ⟨old, new, rfl, rfl, hnew⟩ := filter_eq_ok_iff.mp hresult
  obtain ⟨_, _, hold, hold', hall⟩ := merge_eq_ok_iff.mp h
  obtain rfl := Json.obj.inj hold
  obtain rfl := Json.obj.inj hold'
  have hfixed := List.forall₂_same.mp hall
  refine merge_eq_ok_iff.mpr ⟨new, new, rfl, rfl, List.forall₂_same.mpr ?_⟩
  intro entry hentry
  obtain ⟨entry', hmem, hkept⟩ := mem_of_keepM hnew hentry
  obtain ⟨hkey, hkept⟩ := filterEntry_eq_some_iff.mp hkept
  refine ⟨rfl, ?_⟩
  rw [hkey]
  split at hkept
  · rw [hkept]
    exact (hfixed entry' hmem).2
  · exact mergeCategory_kept (hfixed entry' hmem).2 hkept

end Navigation

/-! ### The whole compilation -/

namespace Compilation

/-- A rendered document is again a template, and renders to itself. -/
theorem render_rendered {t : Catalog} {template r default : Json} {applyFilter : Bool}
    (htemplate : Navigation.templateFault? template = none)
    (h : Compilation.render ⟨some template, applyFilter, default⟩ t = .ok r) :
    Navigation.templateFault? r = none ∧
      Compilation.render ⟨some r, applyFilter, default⟩ t = .ok r := by
  rw [render] at h ⊢
  by_cases hempty : t.isEmpty
  · rw [if_pos hempty] at h ⊢
    obtain rfl : Json.obj [] = r := Except.ok.inj h
    exact ⟨rfl, rfl⟩
  · rw [if_neg hempty] at h ⊢
    obtain ⟨merged, hmerge, h⟩ := bind_eq_ok_iff.mp h
    have haccepted := Navigation.templateFault?_merged htemplate hmerge
    have hagain := Navigation.merge_merged hmerge
    cases applyFilter with
    | false =>
      obtain rfl : merged = r := Except.ok.inj h
      exact ⟨haccepted, bind_eq_ok_iff.mpr ⟨merged, hagain, rfl⟩⟩
    | true =>
      refine ⟨Navigation.templateFault?_kept haccepted h, ?_⟩
      exact bind_eq_ok_iff.mpr ⟨r, Navigation.merge_kept hagain h, Navigation.filter_kept h⟩

/-- **Compiled documentation is its own template.** If fragments are compiled with an accepted
template, then the result is accepted, and compiling the same fragments with it in place of the
template gives it back. -/
theorem compile_compiled {template r default : Json} {applyFilter : Bool} {fs : List Fragment}
    (htemplate : Navigation.check template = .ok template)
    (h : Compilation.compile ⟨some template, applyFilter, default⟩ fs = .ok r) :
    Navigation.check r = .ok r ∧ Compilation.compile ⟨some r, applyFilter, default⟩ fs = .ok r := by
  obtain ⟨t, ht, hr⟩ := bind_eq_ok_iff.mp h
  obtain ⟨haccepted, hagain⟩ := render_rendered (Navigation.check_eq_ok_iff.mp htemplate) hr
  exact ⟨Navigation.check_eq_ok_iff.mpr haccepted, bind_eq_ok_iff.mpr ⟨t, ht, hagain⟩⟩

/-- A button with a documented example and a tab that has nothing to show. -/
theorem compile_compiled_button :
    let fs : List Fragment := [{ file := "a.js", start := .int 1, stop := .int 3, tags :=
      [(.component, [.data "button"]), (.sectionKey, [.data "default"]),
       (.html, [.data (.code "<b>" "&lt;b&gt;")])] }]
    let template : Json := .obj [("components", .obj [("children", .arr
      [.obj [("component", "button"), ("name", "Button"), ("sections", .arr
          [.obj [("section", "default"), ("variations", .obj [])], .obj [("section", "other")]])],
       .obj [("component", "tab"), ("sections", .arr [.obj [("section", "default")]])]])])]
    let r : Json := .obj [("components", .obj [("children", .arr
      [.obj [("component", "button"), ("name", "Button"), ("sections", .arr
          [.obj [("section", "default"),
            ("variations", .obj [("core", .obj [("example", "<b>"), ("escaped", "&lt;b&gt;")])]),
            ("name", ""), ("description", ""), ("variants", .obj [])]]),
        ("description", ""), ("props", .obj [])]])])]
    Navigation.check template = .ok template ∧
      Compilation.compile ⟨some template, true, "components"⟩ fs = .ok r ∧
      Navigation.check r = .ok r ∧ Compilation.compile ⟨some r, true, "components"⟩ fs = .ok r := by
  intro fs template r
  have htemplate : Navigation.check template = .ok template := rfl
  have h : Compilation.compile ⟨some template, true, "components"⟩ fs = .ok r := rfl
  exact ⟨htemplate, h, compile_compiled htemplate h⟩

end Compilation

end StyleGuide
