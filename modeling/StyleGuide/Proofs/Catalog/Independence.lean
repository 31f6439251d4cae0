import StyleGuide.Proofs.Catalog.Growth
import StyleGuide.Proofs.Catalog.Batches

/-!
# Files do not disturb each other

What a step does to the catalog is told by its look-ups: the component in the place of the fragment
is changed, and every other component is found as before (`Builder.component?_step`). Two facts
about runs follow by induction. A component in a place that no fragment targets stays
(`Builder.component?_run_of_targets`), and what becomes of a component depends on nothing else in
the catalog (`Builder.Agree.run`).

Whether a run has a fault does not depend on the catalog that it extends at all: a block with
nothing but properties looks for a component that its own file has declared (`Builder.Settled`).
-/

namespace StyleGuide

/-! ### Look-ups by key -/

section

variable {α : Type} (key : α → Json) {change : α → α}

/-- The item of a key after the first item of a key was changed, or a new one came to the end. -/
theorem find?_upsert_key {create : α} (hkey : ∀ x, key (change x) = key x) (k l : Json)
    (hcreate : key create = k) (xs : List α) :
    (upsert (fun x => (key x).same k) change (change create) xs).find? (fun x => (key x).same l) =
      if k.same l then some (change ((xs.find? fun x => (key x).same l).getD create))
      else xs.find? fun x => (key x).same l := by
  induction xs with
  | nil => by_cases hkl : k.same l <;> simp [upsert, hkey, hcreate, hkl]
  | cons x xs ih =>
    rw [upsert]
    by_cases hx : (key x).same k
    · have hxl : (key x).same l = k.same l := Json.same_congr_left hx
      by_cases hkl : k.same l <;> simp [hx, hkey, hxl, hkl]
    · rw [if_neg hx, List.find?_cons, ih]
      by_cases hxl : (key x).same l
      · have hkl : k.same l = false := by
          rw [Bool.eq_false_iff]
          intro hkl
          rw [Json.same_congr_right hkl] at hx
          exact hx hxl
        simp [hxl, hkl]
      · simp [hxl]

/-- The item of a key after all items of a key were changed. -/
theorem find?_map_key (hkey : ∀ x, key (change x) = key x) (k l : Json) (xs : List α) :
    (xs.map fun x => if (key x).same k then change x else x).find? (fun x => (key x).same l) =
      if k.same l then (xs.find? fun x => (key x).same l).map change
      else xs.find? fun x => (key x).same l := by
  induction xs with
  | nil => simp
  | cons x xs ih =>
    rw [List.map_cons, List.find?_cons, List.find?_cons, ih]
    by_cases hx : (key x).same k
    · have hxl : (key x).same l = k.same l := Json.same_congr_left hx
      by_cases hkl : k.same l <;> simp [hx, hkey, hxl, hkl]
    · by_cases hxl : (key x).same l
      · have hkl : k.same l = false := by
          rw [Bool.eq_false_iff]
          intro hkl
          rw [Json.same_congr_right hkl] at hx
          exact hx hxl
        simp [hx, hxl, hkl]
      · simp [hx, hxl]

end

/-- Two places of a catalog are the same: their categories are, and their components. -/
def samePlace (p q : Json × Json) : Bool := p.1.same q.1 && p.2.same q.2

theorem samePlace_trans {p q r : Json × Json} (h : samePlace p q = true)
    (h' : samePlace r q = true) :
    samePlace p r = true := by
  simp only [samePlace, Bool.and_eq_true] at h h' ⊢
  rw [Json.same_congr_right h'.1, Json.same_congr_right h'.2]
  exact h

namespace Component

/-- A component, new or not, after a fragment that declares it was entered. -/
def declaredBy (old : Option Component) (component : Json) (f : Fragment) : Component :=
  ((old.getD (.ofFragment component f)).redeclare f).enter f

end Component

namespace Catalog

/-- The component of a place, by any keys of the place. -/
theorem component?_congr {t : Catalog} {p q : Json × Json} (h : samePlace p q = true) :
    t.component? p.1 p.2 = t.component? q.1 q.2 := by
  simp only [samePlace, Bool.and_eq_true] at h
  have hcategory : t.category? p.1 = t.category? q.1 := by
    simp only [category?, Json.same_congr_right h.1]
  have hcomponent : ∀ c : Category, c.component? p.2 = c.component? q.2 := by
    intro c
    simp only [Category.component?, Json.same_congr_right h.2]
  rw [component?, component?, hcategory]
  simp only [hcomponent]

/-- Entering a fragment changes the component in its place and no other one. -/
theorem component?_enter (t : Catalog) (category component : Json) (f : Fragment) (c k : Json) :
    (t.enter category component f).component? c k =
      if samePlace (category, component) (c, k) then
        some (Component.declaredBy (t.component? c k) component f)
      else t.component? c k := by
  have hcategory : (t.enter category component f).category? c =
      if category.same c then
        some (((t.category? c).getD { key := category }).modifyComponent component
          (.ofFragment component f) fun k => (k.redeclare f).enter f)
      else t.category? c := by
    show (modifyCategory.modify category _ t.categories).find? _ = _
    rw [modifyCategory_eq_upsert]
    apply find?_upsert_key Category.key
    · exact fun _ => rfl
    · rfl
  have hcomponent : ∀ d : Category, (d.modifyComponent component (.ofFragment component f)
      fun k => (k.redeclare f).enter f).component? k =
        if component.same k then some (Component.declaredBy (d.component? k) component f)
        else d.component? k := by
    intro d
    show (Category.modifyComponent.modify component _ _ d.components).find? _ = _
    rw [modifyComponent_eq_upsert]
    exact find?_upsert_key Component.key (fun x => (x.grows_declared f).key) component k rfl
      d.components
  -- A category that is made for the fragment is empty, so nothing is found in it before.
  have hnew : ((t.category? c).getD { key := category }).component? k = t.component? c k := by
    rw [component?]
    cases t.category? c <;> rfl
  rw [component?, hcategory]
  by_cases hc : category.same c
  · by_cases hk : component.same k <;> simp [samePlace, hc, hk, hcomponent, hnew]
  · simp [samePlace, hc, component?]

/-- Adding properties changes the component in the given place and no other one. -/
theorem component?_addProps (t : Catalog) (category component : Json) (ps : List Property)
    (c k : Json) :
    (t.addProps category component ps).component? c k =
      if samePlace (category, component) (c, k) then (t.component? c k).map (·.addProps ps)
      else t.component? c k := by
  let extended (d : Category) : Category :=
    { d with components := d.components.map fun k =>
        if k.key.same component then k.addProps ps else k }
  have hcategory : (t.addProps category component ps).category? c =
      if category.same c then (t.category? c).map extended else t.category? c := by
    apply find?_map_key Category.key
    exact fun _ => rfl
  have hcomponent : ∀ d : Category, (extended d).component? k =
      if component.same k then (d.component? k).map (·.addProps ps) else d.component? k := by
    intro d
    exact find?_map_key Component.key (fun x => (x.grows_addProps ps).key) component k d.components
  rw [component?, hcategory, component?]
  cases t.category? c with
  | none => simp
  | some d =>
    by_cases hc : category.same c <;> by_cases hk : component.same k <;>
      simp [samePlace, hc, hk, hcomponent]

/-- Adding properties declares no component. -/
theorem isSome_component?_addProps (t : Catalog) (category component : Json) (ps : List Property)
    (c k : Json) :
    ((t.addProps category component ps).component? c k).isSome = (t.component? c k).isSome := by
  rw [component?_addProps]
  split
  · exact Option.isSome_map
  · rfl

end Catalog

/-! ### The place of a fragment -/

namespace Builder

variable {default : Json} {b b' : Builder} {f : Fragment} {fs : List Fragment} {c k : Json}

def current? (b : Builder) : Option (Json × Json) :=
  if b.category.isTruthy && b.component.isTruthy then some (b.category, b.component) else none

/-- The place that a fragment is entered into: the one that it declares, or the one declared
last. -/
def place? (default : Json) (b : Builder) (f : Fragment) : Option (Json × Json) :=
  match f.key? .component with
  | some component => some ((b.atFile f.file).categoryFor default f, component)
  | none => ((b.atFile f.file).header f).current?

def change (f : Fragment) (old : Option Component) : Option Component :=
  match f.key? .component with
  | some component => some (Component.declaredBy old component f)
  | none => old.map (·.addProps f.props)

/-- Properties without a component go to the one that the file declared last, if it is there. -/
theorem target?_eq_bind (b : Builder) :
    b.target? = b.current?.bind fun p => b.catalog.component? p.1 p.2 := by
  rw [target?, current?]
  split <;> rfl

/-- **One step.** A fragment changes the component in its place and no other one. -/
theorem component?_step (default : Json) (b : Builder) (f : Fragment) (c k : Json) :
    (b.step default f).catalog.component? c k =
      if (b.place? default f).any (samePlace · (c, k)) then change f (b.catalog.component? c k)
      else b.catalog.component? c k := by
  rw [step, place?, change]
  cases f.key? .component with
  | some component =>
    show ((b.atFile f.file).catalog.enter _ component f).component? c k = _
    rw [Catalog.component?_enter, catalog_atFile]
    rfl
  | none =>
    show ((b.atFile f.file).enterLoose f).catalog.component? c k = _
    rw [enterLoose, target?_eq_bind, current?, catalog_header, catalog_atFile]
    generalize hb : (b.atFile f.file).header f = before
    have hcatalog : before.catalog = b.catalog := by rw [← hb, catalog_header, catalog_atFile]
    by_cases htruthy : before.category.isTruthy && before.component.isTruthy
    · rw [if_pos htruthy]
      simp only [Option.bind_some, Option.any_some]
      cases htarget : b.catalog.component? before.category before.component with
      | some target =>
        exact Catalog.component?_addProps b.catalog _ _ f.props c k
      | none =>
        -- There is no component in the place, so there is nothing to change.
        show before.catalog.component? c k = _
        rw [hcatalog]
        split
        · next hplace =>
          rw [Catalog.component?_congr hplace] at htarget
          simp [htarget]
        · rfl
    · rw [if_neg htruthy]
      show before.catalog.component? c k = _
      rw [hcatalog]
      rfl

/-! ### What a step reads -/

def context (b : Builder) : Builder := { b with catalog := {} }

theorem context_atFile (b : Builder) (file : Json) :
    (b.atFile file).context = b.context.atFile file := by
  show (if b.file.same file then b else _).context = if b.file.same file then b.context else _
  split <;> rfl

theorem context_header (b : Builder) (f : Fragment) :
    (b.header f).context = b.context.header f := by
  rw [header, header]
  cases f.key? .category <;> rfl

theorem categoryFor_context (default : Json) (b : Builder) (f : Fragment) :
    b.context.categoryFor default f = b.categoryFor default f := rfl

theorem current?_context (b : Builder) : b.context.current? = b.current? := rfl

/-- The place of a fragment does not depend on the catalog. -/
theorem place?_context (default : Json) (b : Builder) (f : Fragment) :
    b.context.place? default f = b.place? default f := by
  rw [place?, ← context_atFile, ← context_header, categoryFor_context, current?_context, place?]

/-- What a file has declared last after one more fragment is read off the fragment and from what it
had declared before. -/
theorem context_step (default : Json) (b : Builder) (f : Fragment) :
    (b.step default f).context =
      match f.key? .component with
      | some component =>
        { b.context.atFile f.file with
          category := (b.context.atFile f.file).categoryFor default f, component }
      | none => (b.context.atFile f.file).header f := by
  rw [step]
  cases f.key? .component with
  | some component =>
    show _ = { b.context.atFile f.file with
      category := (b.context.atFile f.file).categoryFor default f, component := component }
    rw [← context_atFile]
    rfl
  | none =>
    show ((b.atFile f.file).enterLoose f).context = (b.context.atFile f.file).header f
    rw [← context_atFile, ← context_header, enterLoose]
    split <;> rfl

/-- Two builders are in the same file, which declared the same last, and have the same component in
one place. -/
structure Agree (c k : Json) (b b' : Builder) : Prop where
  context : b.context = b'.context
  component? : b.catalog.component? c k = b'.catalog.component? c k

/-- What becomes of a component depends on nothing else in the catalog. -/
theorem Agree.step (h : Agree c k b b') (default : Json) (f : Fragment) :
    Agree c k (b.step default f) (b'.step default f) where
  context := by rw [context_step, context_step, h.context]
  component? := by
    have hplace : b.place? default f = b'.place? default f := by
      rw [← place?_context, h.context, place?_context]
    rw [component?_step, component?_step, hplace, h.component?]

/-- Builders that agree on one place agree on it after any run. -/
theorem Agree.run (h : Agree c k b b') (default : Json) (fs : List Fragment) :
    Agree c k (b.run default fs) (b'.run default fs) := by
  induction fs generalizing b b' with
  | nil => exact h
  | cons f fs ih => exact ih (h.step default f)

/-! ### Faults -/

/-- The component that the file declared last is in the catalog, and its place is one that a
component can be looked up in. -/
def Settled (b : Builder) : Prop :=
  b.component.isTruthy = true → b.category.isKey = true ∧ b.component.isKey = true ∧
    (b.catalog.component? b.category b.component).isSome = true

theorem settled_of_component (h : b.component = .null) : b.Settled := by
  intro htruthy
  rw [h] at htruthy
  cases htruthy

theorem Settled.atFile (h : b.Settled) (file : Json) : (b.atFile file).Settled := by
  rw [Builder.atFile]
  split
  · exact h
  · exact settled_of_component rfl

theorem Settled.header (h : b.Settled) (f : Fragment) : (b.header f).Settled := by
  rw [Builder.header]
  split
  · exact settled_of_component rfl
  · exact h

/-- A block without a component has a fault if it follows a component and a property of it has
one. -/
theorem Settled.enterLooseFault?_eq (h : b.Settled) (f : Fragment) :
    b.enterLooseFault? f = (b.header f).current?.bind fun _ => Component.propsFault? f.props := by
  have hheader := h.header f
  rw [enterLooseFault?]
  generalize b.header f = before at hheader ⊢
  rw [targetFault?, target?_eq_bind, current?]
  by_cases htruthy : before.category.isTruthy && before.component.isTruthy
  · obtain ⟨hcategory, hcomponent, hfound⟩ := hheader (Bool.and_eq_true_iff.mp htruthy).2
    obtain ⟨target, htarget⟩ := Option.isSome_iff_exists.mp hfound
    have hlookup : before.catalog.lookupFault? before.category before.component = none := by
      simp [Catalog.lookupFault?, hcategory, hcomponent]
    simp [htruthy, htarget, hlookup]
  · rw [if_neg htruthy, if_neg]
    · rfl
    · rw [Bool.and_assoc, Bool.and_eq_true]
      exact fun hboth => htruthy hboth.2

/-- Whether a fragment can be entered depends on the context alone. -/
theorem fault?_eq_of_context (h : b.Settled) (h' : b'.Settled) (hcontext : b.context = b'.context)
    (default : Json) (f : Fragment) : b.fault? default f = b'.fault? default f := by
  have hat : (b.atFile f.file).context = (b'.atFile f.file).context := by
    rw [context_atFile, context_atFile, hcontext]
  rw [fault?, fault?]
  cases f.key? .component with
  | some component =>
    show (if ((b.atFile f.file).categoryFor default f).isKey && _ then _ else _) = _
    rw [← categoryFor_context, hat, categoryFor_context]
  | none =>
    show (b.atFile f.file).enterLooseFault? f = (b'.atFile f.file).enterLooseFault? f
    rw [(h.atFile f.file).enterLooseFault?_eq, (h'.atFile f.file).enterLooseFault?_eq,
      ← current?_context, context_header, hat, ← context_header, current?_context]

/-- A step without faults leaves the component that the file declared last in the catalog. -/
theorem Settled.step (h : b.Settled) (hfault : b.fault? default f = none) :
    (b.step default f).Settled := by
  rw [fault?] at hfault
  rw [Builder.step]
  cases hkey : f.key? .component with
  | some component =>
    simp only [hkey] at hfault
    split at hfault
    · next hkeys =>
      obtain ⟨hcategory, hcomponent⟩ := Bool.and_eq_true_iff.mp hkeys
      intro _
      refine ⟨hcategory, hcomponent, ?_⟩
      show (((b.atFile f.file).catalog.enter _ component f).component? _ component).isSome = true
      rw [Catalog.component?_enter, samePlace]
      simp
    · cases hfault
  | none =>
    have hheader := (h.atFile f.file).header f
    show ((b.atFile f.file).enterLoose f).Settled
    rw [enterLoose]
    cases ((b.atFile f.file).header f).target? with
    | none => exact hheader
    | some target =>
      intro htruthy
      obtain ⟨hcategory, hcomponent, hfound⟩ := hheader htruthy
      exact ⟨hcategory, hcomponent, (Catalog.isSome_component?_addProps _ _ _ _ _ _).trans hfound⟩

/-- Whether fragments can be entered depends on the context alone. -/
theorem runFault?_eq_of_context (h : b.Settled) (h' : b'.Settled)
    (hcontext : b.context = b'.context)
    (default : Json) (fs : List Fragment) : b.runFault? default fs = b'.runFault? default fs := by
  induction fs generalizing b b' with
  | nil => rfl
  | cons f fs ih =>
    have hsame := fault?_eq_of_context h h' hcontext default f
    rw [runFault?, runFault?, hsame]
    cases hfault : b'.fault? default f with
    | some fault => rfl
    | none =>
      rw [Option.none_or, Option.none_or]
      apply ih (h.step (hsame.trans hfault)) (h'.step hfault)
      rw [context_step, context_step, hcontext]

/-! ### What a run leaves alone -/

end Builder

/-- The places that the fragments of a list declare, in a file with the given category: the category
of a fragment is its own, or the one that its file declared last, or the default. A block with
nothing but properties belongs to a component that was declared before it. -/
def targetsFrom (default file category : Json) : List Fragment → List (Json × Json)
  | [] => []
  | f :: fs =>
    let category := if file.same f.file then category else .null
    match f.key? .component with
    | some component =>
      let category := (f.key? .category).getD (category.orElse default)
      (category, component) :: targetsFrom default f.file category fs
    | none => targetsFrom default f.file ((f.key? .category).getD category) fs

def targets (default : Json) (fs : List Fragment) : List (Json × Json) :=
  targetsFrom default .null .null fs

theorem targetsFrom_congr {file file' : Json} (h : file.same file' = true) (default category : Json)
    (fs : List Fragment) :
    targetsFrom default file category fs = targetsFrom default file' category fs := by
  cases fs with
  | nil => rfl
  | cons f fs => rw [targetsFrom, targetsFrom, Json.same_congr_left h]

namespace Builder

variable {default : Json} {b b' : Builder} {f : Fragment} {fs : List Fragment} {c k : Json}

theorem category_atFile (b : Builder) (file : Json) :
    (b.atFile file).category = if b.file.same file then b.category else .null := by
  rw [atFile]
  split <;> rfl

theorem targetsFrom_cons (default : Json) (b : Builder) (f : Fragment) (fs : List Fragment) :
    targetsFrom default b.file b.category (f :: fs) =
      ((f.key? .component).map fun k => ((b.atFile f.file).categoryFor default f, k)).toList ++
        targetsFrom default (b.step default f).file (b.step default f).category fs := by
  have hfile : (b.step default f).file.same f.file = true := by
    rw [file_step]
    exact file_atFile_same b f.file
  rw [targetsFrom_congr hfile, targetsFrom, ← category_atFile, step]
  cases f.key? .component with
  | some component => rfl
  | none =>
    have hcategory : ((b.atFile f.file).enterLoose f).category =
        (f.key? .category).getD (b.atFile f.file).category := by
      rw [enterLoose, header]
      cases f.key? .category <;> simp only [Option.getD_none, Option.getD_some] <;> split <;> rfl
    show _ = targetsFrom default f.file ((b.atFile f.file).enterLoose f).category fs
    rw [hcategory]

/-- A block that declares no component belongs to the one declared last. -/
theorem current?_of_place? (hkey : f.key? .component = none) {p : Json × Json}
    (h : b.place? default f = some p) : b.current? = some p := by
  -- A new file or a new category starts without a component.
  have hnone : ∀ b : Builder, b.component = .null → b.current? ≠ some p := by
    intro b hb
    simp [current?, hb, Json.isTruthy]
  simp only [place?, hkey, header] at h
  cases hcategory : f.key? .category with
  | some category =>
    simp only [hcategory] at h
    exact absurd h (hnone _ rfl)
  | none =>
    simp only [hcategory, atFile] at h
    split at h
    · exact h
    · exact absurd h (hnone _ rfl)

/-- The place of a fragment is one that it declares or the one declared last. -/
theorem place?_cases {p : Json × Json} (h : b.place? default f = some p) :
    p ∈ targetsFrom default b.file b.category (f :: fs) ∨ b.current? = some p := by
  rw [targetsFrom_cons]
  cases hkey : f.key? .component with
  | some component =>
    rw [place?, hkey] at h
    left
    simp [Option.some.inj h]
  | none => exact .inr (current?_of_place? hkey h)

/-- The place declared last after a step is the one that the step went to. -/
theorem place?_of_current?_step {p : Json × Json} (h : (b.step default f).current? = some p) :
    b.place? default f = some p := by
  rw [← current?_context, context_step] at h
  rw [← place?_context, place?]
  cases hkey : f.key? .component with
  | some component =>
    rw [hkey] at h
    simp only [current?] at h
    split at h
    · exact h
    · cases h
  | none =>
    rw [hkey] at h
    exact h

/-- **Untargeted components.** A run leaves a component as it is if neither the fragments nor what
was declared before them have its place. -/
theorem component?_run_of_targets (hcurrent : ∀ p, b.current? = some p → samePlace p (c, k) = false)
    (htargets : ∀ p ∈ targetsFrom default b.file b.category fs, samePlace p (c, k) = false) :
    (b.run default fs).catalog.component? c k = b.catalog.component? c k := by
  induction fs generalizing b with
  | nil => rfl
  | cons f fs ih =>
    have hplace : ∀ p, b.place? default f = some p → samePlace p (c, k) = false := by
      intro p hp
      rcases place?_cases hp with hmem | hlast
      · exact htargets p hmem
      · exact hcurrent p hlast
    have hstep : (b.step default f).catalog.component? c k = b.catalog.component? c k := by
      rw [component?_step, if_neg]
      simpa [Option.any_eq_true] using hplace
    rw [← hstep]
    apply ih
    · intro p hp
      exact hplace p (place?_of_current?_step hp)
    · intro p hp
      apply htargets p
      rw [targetsFrom_cons]
      exact List.mem_append_right _ hp

end Builder

/-! ### Independence -/

/-- No fragment of the list targets the place. -/
def Untargeted (default : Json) (fs : List Fragment) (c k : Json) : Prop :=
  ∀ p ∈ targets default fs, samePlace p (c, k) = false

namespace Catalog

variable {default : Json} {t : Catalog} {a b : List Fragment} {c k : Json}

/-- A component that no fragment targets stays as it is. -/
theorem component?_extend_of_untargeted (h : Untargeted default a c k) :
    (t.extend default a).component? c k = t.component? c k :=
  Builder.component?_run_of_targets (fun _ hp => nomatch hp) h

/-- What fragments make of a component that is not there does not depend on the rest of the
catalog. -/
theorem component?_extend_of_none (h : t.component? c k = none) :
    (t.extend default a).component? c k = (extend default {} a).component? c k := by
  have hagree : Builder.Agree c k { catalog := t } {} := ⟨rfl, h⟩
  exact (hagree.run default a).component?

/-- Whether fragments have a fault does not depend on the catalog. -/
theorem runFault?_eq (default : Json) (t : Catalog) (a : List Fragment) :
    Builder.runFault? default { catalog := t } a = Builder.runFault? default {} a := by
  apply Builder.runFault?_eq_of_context
  · exact Builder.settled_of_component rfl
  · exact Builder.settled_of_component rfl
  · rfl

/-- Whether fragments can be entered does not depend on the catalog. -/
theorem exists_build_eq_ok_iff (default : Json) (t : Catalog) (a : List Fragment) :
    (∃ u, t.build default a = .ok u) ↔ Builder.runFault? default {} a = none := by
  rw [build, runFault?_eq]
  cases Builder.runFault? default {} a <;> simp

end Catalog

/-- No fragment of one list is in the file of a fragment of the other, and no place is targeted in
both. -/
structure Apart (default : Json) (a b : List Fragment) : Prop where
  files : ∀ f ∈ a, ∀ g ∈ b, f.file.same g.file = false
  places : ∀ p ∈ targets default a, ∀ q ∈ targets default b, samePlace p q = false

namespace Apart

variable {default : Json} {a b : List Fragment} {c k : Json}

theorem symm (h : Apart default a b) : Apart default b a where
  files := by
    intro g hg f hf
    rw [Json.same_comm]
    exact h.files f hf g hg
  places := by
    intro q hq p hp
    have hpq := h.places p hp q hq
    rw [samePlace] at hpq ⊢
    rw [Json.same_comm q.1, Json.same_comm q.2]
    exact hpq

theorem startsNewFile (h : Apart default a b) : StartsNewFile a b := by
  intro f g hf hg
  exact h.files f (List.mem_of_getLast? hf) g (List.mem_of_head? hg)

/-- No place is targeted by both lists. -/
theorem untargeted (h : Apart default a b) (c k : Json) :
    Untargeted default a c k ∨ Untargeted default b c k := by
  by_cases htarget : ∃ p ∈ targets default a, samePlace p (c, k) = true
  · right
    obtain ⟨p, hp, hpc⟩ := htarget
    intro q hq
    rw [Bool.eq_false_iff]
    intro hqc
    have hpq := samePlace_trans hpc hqc
    rw [h.places p hp q hq] at hpq
    cases hpq
  · left
    intro p hp
    rw [Bool.eq_false_iff]
    exact fun hpc => htarget ⟨p, hp, hpc⟩

/-- At most one of the lists documents a component. -/
theorem component?_eq_none (h : Apart default a b) (c k : Json) :
    (Catalog.extend default {} a).component? c k = none ∨
      (Catalog.extend default {} b).component? c k = none := by
  rcases h.untargeted c k with ha | hb
  · exact .inl (Catalog.component?_extend_of_untargeted ha)
  · exact .inr (Catalog.component?_extend_of_untargeted hb)

/-- The components of both lists together are those of each alone. -/
theorem component?_extend_append (h : Apart default a b) (c k : Json) :
    (Catalog.extend default {} (a ++ b)).component? c k =
      ((Catalog.extend default {} a).component? c k).or
        ((Catalog.extend default {} b).component? c k) := by
  rw [Catalog.extend_append h.startsNewFile]
  rcases h.untargeted c k with ha | hb
  · have hnone : (Catalog.extend default {} a).component? c k = none :=
      Catalog.component?_extend_of_untargeted ha
    rw [Catalog.component?_extend_of_none hnone, hnone, Option.none_or]
  · have hnone : (Catalog.extend default {} b).component? c k = none :=
      Catalog.component?_extend_of_untargeted hb
    rw [Catalog.component?_extend_of_untargeted hb, hnone, Option.or_none]

/-- Lists that are apart fail where one of them fails. -/
theorem runFault?_append (h : Apart default a b) :
    Builder.runFault? default {} (a ++ b) =
      (Builder.runFault? default {} a).or (Builder.runFault? default {} b) := by
  rw [Catalog.runFault?_append_of_startsNewFile h.startsNewFile,
    Catalog.runFault?_eq default (Catalog.extend default {} a) b]

end Apart

/-- **Independent files.** If two lists of fragments share no file and no targeted place, both
together can be built if each can be built alone, and in either order every component is found as
the one list or the other one alone documents it. -/
theorem files_are_independent (default : Json) (a b : List Fragment) (h : Apart default a b) :
    ((∃ t, Catalog.build default {} (a ++ b) = .ok t) ↔
      (∃ t, Catalog.build default {} a = .ok t) ∧ ∃ t, Catalog.build default {} b = .ok t) ∧
    ∀ ta tb, Catalog.build default {} a = .ok ta → Catalog.build default {} b = .ok tb →
      ∃ t u, Catalog.build default {} (a ++ b) = .ok t ∧ Catalog.build default {} (b ++ a) = .ok u ∧
        ∀ c k, t.component? c k = u.component? c k ∧
          (t.component? c k = ta.component? c k ∧ tb.component? c k = none ∨
            t.component? c k = tb.component? c k ∧ ta.component? c k = none) := by
  have hbuild : ∀ {a b : List Fragment}, Apart default a b →
      ((∃ t, Catalog.build default {} (a ++ b) = .ok t) ↔
        (∃ t, Catalog.build default {} a = .ok t) ∧ ∃ t, Catalog.build default {} b = .ok t) := by
    intro a b h
    simp only [Catalog.exists_build_eq_ok_iff, h.runFault?_append, Option.or_eq_none_iff]
  refine ⟨hbuild h, ?_⟩
  intro ta tb ha hb
  obtain ⟨t, ht⟩ := (hbuild h).mpr ⟨⟨ta, ha⟩, ⟨tb, hb⟩⟩
  obtain ⟨u, hu⟩ := (hbuild h.symm).mpr ⟨⟨tb, hb⟩, ⟨ta, ha⟩⟩
  refine ⟨t, u, ht, hu, ?_⟩
  intro c k
  have htk := h.component?_extend_append c k
  have huk := h.symm.component?_extend_append c k
  have hone := h.component?_eq_none c k
  rw [← Catalog.eq_extend_of_build ha, ← Catalog.eq_extend_of_build hb] at htk huk hone
  rw [← Catalog.eq_extend_of_build ht] at htk
  rw [← Catalog.eq_extend_of_build hu] at huk
  rcases hone with hnone | hnone
  · rw [hnone, Option.none_or] at htk
    rw [hnone, Option.or_none] at huk
    exact ⟨htk.trans huk.symm, .inr ⟨htk, hnone⟩⟩
  · rw [hnone, Option.or_none] at htk
    rw [hnone, Option.none_or] at huk
    exact ⟨htk.trans huk.symm, .inl ⟨htk, hnone⟩⟩

/-- A property that no component of its own file comes before is dropped in either order, and a
component without a category does not get the one of the other file. -/
theorem files_are_independent_header_and_props :
    let size : Property :=
      { name := "size", type := "string", description := "", default := .null,
        required := .bool true, library := "react" }
    let a : List Fragment :=
      [{ file := "a.js", start := .int 1, stop := .int 1, tags := [(.category, [.data "Inputs"])] },
        { file := "a.js", start := .int 2, stop := .int 4,
          tags := [(.component, [.data "button"])] }]
    let b : List Fragment :=
      [{ file := "b.js", start := .int 1, stop := .int 2, tags := [(.prop, [.prop size])] },
        { file := "b.js", start := .int 3, stop := .int 4,
          tags := [(.component, [.data "button"])] }]
    let ta : Catalog := ⟨[{ key := "Inputs", components := [{ key := "button" }] }]⟩
    let tb : Catalog := ⟨[{ key := "Other", components := [{ key := "button" }] }]⟩
    Apart "Other" a b ∧ targets "Other" b = [(.str "Other", .str "button")] ∧
      ∃ t u, Catalog.build "Other" {} (a ++ b) = .ok t ∧ Catalog.build "Other" {} (b ++ a) = .ok u ∧
        ∀ c k, t.component? c k = u.component? c k ∧
          (t.component? c k = ta.component? c k ∧ tb.component? c k = none ∨
            t.component? c k = tb.component? c k ∧ ta.component? c k = none) := by
  intro size a b ta tb
  have hapart : Apart "Other" a b := ⟨by decide, by decide⟩
  exact ⟨hapart, rfl, (files_are_independent "Other" a b hapart).2 ta tb rfl rfl⟩

end StyleGuide
