import StyleGuide.Proofs.Catalog.Build

/-!
# The catalog only grows

`GrowsBy R xs ys` says that the items of `xs` have become the first items of `ys`, each as `R`
allows, and that what is new comes behind them. From it the order of growth is put together level by
level, from the variants of a section up to the categories of the catalog. Only the labels of a
component can change, and `Builder.Relabels` says when: a block that declares this very component,
without a section.

Entering a block is `upsert` at every level, and `upsert` lets a list grow (`GrowsBy.upsert`). So
one step of the builder lets the catalog grow, and by transitivity a run does.
-/

namespace StyleGuide

/-! ### Lists that grow -/

/-- The items of the first list have become the first items of the second one. -/
inductive GrowsBy {α : Type} (R : α → α → Prop) : List α → List α → Prop
  | nil (ys : List α) : GrowsBy R [] ys
  | cons {x y : α} {xs ys : List α} : R x y → GrowsBy R xs ys → GrowsBy R (x :: xs) (y :: ys)

namespace GrowsBy

variable {α : Type} {R S T : α → α → Prop} {xs ys zs : List α}

theorem refl (h : ∀ x ∈ xs, R x x) : GrowsBy R xs xs := by
  induction xs with
  | nil => exact .nil []
  | cons x xs ih =>
    obtain ⟨hx, hxs⟩ := List.forall_mem_cons.mp h
    exact .cons hx (ih hxs)

theorem trans (hT : ∀ x y z, R x y → S y z → T x z) (h : GrowsBy R xs ys) (h' : GrowsBy S ys zs) :
    GrowsBy T xs zs := by
  induction h generalizing zs with
  | nil ys => exact .nil zs
  | cons hxy _ ih =>
    cases h' with
    | cons hyz hrest => exact .cons (hT _ _ _ hxy hyz) (ih hrest)

theorem imp (hRS : ∀ x y, R x y → S x y) (h : GrowsBy R xs ys) : GrowsBy S xs ys := by
  induction h with
  | nil ys => exact .nil ys
  | cons hxy _ ih => exact .cons (hRS _ _ hxy) ih

theorem map {g : α → α} (h : ∀ x ∈ xs, R x (g x)) : GrowsBy R xs (xs.map g) := by
  induction xs with
  | nil => exact .nil []
  | cons x xs ih =>
    obtain ⟨hx, hxs⟩ := List.forall_mem_cons.mp h
    exact .cons hx (ih hxs)

/-- Changing an item or adding one lets a list grow. -/
theorem upsert {test : α → Bool} {change : α → α} {new : α} (h : ∀ x ∈ xs, R x x)
    (hchange : ∀ x ∈ xs, test x = true → R x (change x)) :
    GrowsBy R xs (upsert test change new xs) := by
  induction xs with
  | nil => exact .nil [new]
  | cons x xs ih =>
    obtain ⟨hx, hxs⟩ := List.forall_mem_cons.mp h
    obtain ⟨hchangex, hchangexs⟩ := List.forall_mem_cons.mp hchange
    rw [StyleGuide.upsert]
    by_cases htest : test x
    · rw [if_pos htest]
      exact .cons (hchangex htest) (refl hxs)
    · rw [if_neg htest]
      exact .cons hx (ih hxs hchangexs)

/-- What is found in a list is found in the grown one, and has only grown itself. -/
theorem find? {test : α → Bool} (h : GrowsBy R xs ys)
    (htest : ∀ x y, R x y → test y = test x) {x : α}
    (hx : xs.find? test = some x) : ∃ y, ys.find? test = some y ∧ R x y := by
  induction h with
  | nil ys => cases hx
  | cons hxy _ ih =>
    rw [List.find?_cons] at hx ⊢
    rw [htest _ _ hxy]
    split at hx
    · obtain rfl := Option.some.inj hx
      exact ⟨_, rfl, hxy⟩
    · exact ih hx

theorem exists_of_mem (h : GrowsBy R xs ys) {x : α} (hx : x ∈ xs) : ∃ y ∈ ys, R x y := by
  induction h with
  | nil ys => cases hx
  | cons hxy _ ih =>
    rcases List.mem_cons.mp hx with rfl | hx
    · exact ⟨_, List.mem_cons_self, hxy⟩
    · obtain ⟨y, hy, hR⟩ := ih hx
      exact ⟨y, List.mem_cons_of_mem _ hy, hR⟩

end GrowsBy

/-! ### The order of growth -/

/-- A section keeps all its fields; variants may be added. -/
structure Section.Grows (s s' : Section) : Prop where
  fields : s' = { s with variants := s'.variants }
  variants : s.variants <+: s'.variants

/-- A table keeps its library; properties may be added. -/
structure PropertyTable.Grows (t t' : PropertyTable) : Prop where
  library : t'.library = t.library
  props : t.props <+: t'.props

/-- A component keeps its key, and its labels if it is not relabelled; sections, variants, tables
and properties may be added. -/
structure Component.Grows (relabelled : Prop) (c c' : Component) : Prop where
  key : c'.key = c.key
  labels : ¬relabelled → c'.name = c.name ∧ c'.description = c.description
  sections : GrowsBy Section.Grows c.sections c'.sections
  tables : GrowsBy PropertyTable.Grows c.tables c'.tables

/-- A category keeps its key; components may be added. -/
structure Category.Grows (relabelled : Json → Prop) (c c' : Category) : Prop where
  key : c'.key = c.key
  components : GrowsBy (fun k k' => k.Grows (relabelled k.key) k') c.components c'.components

/-- A catalog keeps its categories, each of which may grow; categories may be added. The relation
tells by category and component which components are relabelled. -/
structure Catalog.Grows (relabelled : Json → Json → Prop) (t t' : Catalog) : Prop where
  categories : GrowsBy (fun c c' => c.Grows (relabelled c.key) c') t.categories t'.categories

theorem Section.Grows.refl (s : Section) : s.Grows s := ⟨rfl, List.prefix_rfl⟩

theorem Section.Grows.trans {s s' s'' : Section} (h : s.Grows s') (h' : s'.Grows s'') :
    s.Grows s'' := by
  refine ⟨?_, h.variants.trans h'.variants⟩
  rw [h'.fields, h.fields]

theorem PropertyTable.Grows.refl (t : PropertyTable) : t.Grows t := ⟨rfl, List.prefix_rfl⟩

theorem PropertyTable.Grows.trans {t t' t'' : PropertyTable} (h : t.Grows t') (h' : t'.Grows t'') :
    t.Grows t'' :=
  ⟨h'.library.trans h.library, h.props.trans h'.props⟩

theorem Component.Grows.refl (relabelled : Prop) (c : Component) : c.Grows relabelled c :=
  ⟨rfl, fun _ => ⟨rfl, rfl⟩, .refl fun s _ => .refl s, .refl fun t _ => .refl t⟩

/-- Growth adds up; labels may change if they may in either step. -/
theorem Component.Grows.trans {p q : Prop} {c c' c'' : Component} (h : c.Grows p c')
    (h' : c'.Grows q c'') : c.Grows (p ∨ q) c'' where
  key := h'.key.trans h.key
  labels := by
    intro hnot
    obtain ⟨hp, hq⟩ := not_or.mp hnot
    exact ⟨(h'.labels hq).1.trans (h.labels hp).1, (h'.labels hq).2.trans (h.labels hp).2⟩
  sections := .trans (fun _ _ _ h₁ h₂ => h₁.trans h₂) h.sections h'.sections
  tables := .trans (fun _ _ _ h₁ h₂ => h₁.trans h₂) h.tables h'.tables

theorem Component.Grows.mono {p q : Prop} {c c' : Component} (h : c.Grows p c') (hpq : p → q) :
    c.Grows q c' :=
  { h with labels := fun hq => h.labels fun hp => hq (hpq hp) }

theorem Category.Grows.refl (relabelled : Json → Prop) (c : Category) : c.Grows relabelled c :=
  ⟨rfl, .refl fun k _ => .refl _ k⟩

theorem Category.Grows.trans {p q : Json → Prop} {c c' c'' : Category} (h : c.Grows p c')
    (h' : c'.Grows q c'') : c.Grows (fun k => p k ∨ q k) c'' := by
  refine ⟨h'.key.trans h.key, .trans ?_ h.components h'.components⟩
  intro k k' k'' hk hk'
  -- The component in the middle has the key of the first one, so the same labels are meant.
  rw [hk.key] at hk'
  exact hk.trans hk'

theorem Category.Grows.mono {p q : Json → Prop} {c c' : Category} (h : c.Grows p c')
    (hpq : ∀ k, p k → q k) : c.Grows q c' :=
  ⟨h.key, h.components.imp fun k _ hk => hk.mono (hpq k.key)⟩

theorem Catalog.Grows.refl (relabelled : Json → Json → Prop) (t : Catalog) : t.Grows relabelled t :=
  ⟨.refl fun c _ => .refl _ c⟩

theorem Catalog.Grows.trans {p q : Json → Json → Prop} {t t' t'' : Catalog} (h : t.Grows p t')
    (h' : t'.Grows q t'') : t.Grows (fun c k => p c k ∨ q c k) t'' := by
  refine ⟨.trans ?_ h.categories h'.categories⟩
  intro c c' c'' hc hc'
  rw [hc.key] at hc'
  exact hc.trans hc'

theorem Catalog.Grows.mono {p q : Json → Json → Prop} {t t' : Catalog} (h : t.Grows p t')
    (hpq : ∀ c k, p c k → q c k) : t.Grows q t' :=
  ⟨h.categories.imp fun c _ hc => hc.mono (hpq c.key)⟩

/-! ### Components -/

theorem Section.grows_withVariantOf (s : Section) (f : Fragment) : s.Grows (s.withVariantOf f) := by
  unfold withVariantOf
  split
  · unfold addVariant
    split
    · exact .refl s
    · exact ⟨rfl, List.prefix_append _ _⟩
  · exact .refl s

namespace Component

variable {f : Fragment}

/-- A property goes to the end of its table, or starts a table at the end. -/
theorem insertProp_grows (p : Property) (ts : List PropertyTable) :
    GrowsBy PropertyTable.Grows ts (insertProp p ts) := by
  induction ts with
  | nil => exact .nil _
  | cons t ts ih =>
    rw [insertProp]
    split
    · exact .cons ⟨rfl, List.prefix_append _ _⟩ (.refl fun u _ => .refl u)
    · exact .cons (.refl t) ih

theorem grows_addProp (c : Component) (p : Property) : c.Grows False (c.addProp p) := by
  unfold addProp
  split
  · exact { Grows.refl False c with tables := insertProp_grows p c.tables }
  · exact .refl False c

theorem grows_addProps (c : Component) (ps : List Property) : c.Grows False (c.addProps ps) := by
  induction ps generalizing c with
  | nil => exact .refl False c
  | cons p ps ih =>
    have hp : c.Grows False (if p.name.isTruthy then c.addProp p else c) := by
      split
      · exact c.grows_addProp p
      · exact .refl False c
    exact (hp.trans (ih _)).mono fun h => h.elim id id

/-- Entering a fragment below its component takes nothing away. -/
theorem grows_enter (c : Component) (f : Fragment) : c.Grows False (c.enter f) := by
  have hsections : c.Grows False ((c.enterSection f).enterVariant f) := by
    cases hkey : f.key? .sectionKey with
    | none =>
      rw [enterVariant_enterSection_of_none hkey]
      exact .refl False c
    | some key =>
      rw [enterVariant_enterSection hkey]
      refine { Grows.refl False c with sections := ?_ }
      exact .upsert (fun s _ => .refl s) fun s _ _ => s.grows_withVariantOf f
  exact (hsections.trans (grows_addProps _ f.props)).mono fun h => h.elim id id

/-- Only a declaration without a section changes labels. -/
theorem grows_redeclare (c : Component) (f : Fragment) :
    c.Grows (f.key? .sectionKey = none) (c.redeclare f) := by
  unfold redeclare
  split
  · exact .refl _ c
  · next hkey =>
    exact { Grows.refl False c with labels := fun hnot => absurd (by simpa using hkey) hnot }

theorem grows_declared (c : Component) (f : Fragment) :
    c.Grows (f.key? .sectionKey = none) ((c.redeclare f).enter f) :=
  ((c.grows_redeclare f).trans (grows_enter _ f)).mono fun h => h.elim id False.elim

end Component

/-! ### Categories and the catalog -/

namespace Catalog

/-- Entering a block changes at most the component of the given keys. -/
theorem grows_enter (t : Catalog) (category component : Json) (f : Fragment) :
    t.Grows (fun c k => f.key? .sectionKey = none ∧ c.same category = true ∧
      k.same component = true) (t.enter category component f) := by
  constructor
  -- Only the category of the key is changed, and in it only the component of the key.
  show GrowsBy _ t.categories (modifyCategory.modify category _ t.categories)
  rw [modifyCategory_eq_upsert]
  apply GrowsBy.upsert
  · intro c _
    exact .refl _ c
  · intro c _ hc
    refine ⟨rfl, ?_⟩
    show GrowsBy _ c.components (Category.modifyComponent.modify component _ _ c.components)
    rw [modifyComponent_eq_upsert]
    apply GrowsBy.upsert
    · intro k _
      exact .refl _ k
    · intro k _ hk
      exact (k.grows_declared f).mono fun hsection => ⟨hsection, hc, hk⟩

theorem grows_addProps (t : Catalog) (category component : Json) (ps : List Property) :
    t.Grows (fun _ _ => False) (t.addProps category component ps) := by
  constructor
  apply GrowsBy.map
  intro c _
  split
  · refine ⟨rfl, GrowsBy.map ?_⟩
    intro k _
    split
    · exact k.grows_addProps ps
    · exact .refl False k
  · exact .refl _ c

end Catalog

/-! ### Steps and runs -/

namespace Builder

variable {default : Json}

@[simp] theorem catalog_atFile (b : Builder) (file : Json) :
    (b.atFile file).catalog = b.catalog := by
  unfold atFile
  split <;> rfl

@[simp] theorem catalog_header (b : Builder) (f : Fragment) : (b.header f).catalog = b.catalog := by
  unfold header
  split <;> rfl

/-- What a step can do to the catalog: enter a block that declares a component, add the properties
of one that declares none, or nothing. -/
theorem catalog_step_cases (default : Json) (b : Builder) (f : Fragment) :
    (∃ component, f.key? .component = some component ∧ (b.step default f).catalog =
      b.catalog.enter ((b.atFile f.file).categoryFor default f) component f) ∨
    (∃ category component,
      (b.step default f).catalog = b.catalog.addProps category component f.props) ∨
    (b.step default f).catalog = b.catalog := by
  unfold step
  cases hk : f.key? .component with
  | some component => exact .inl ⟨component, rfl, by simp⟩
  | none =>
    right
    simp only [enterLoose]
    cases ((b.atFile f.file).header f).target? with
    | some target => exact .inl ⟨_, _, by rw [catalog_header, catalog_atFile]⟩
    | none => exact .inr (by rw [catalog_header, catalog_atFile])

/-- The block declares the component of the given keys, and has no section. -/
def Relabels (default : Json) (b : Builder) (f : Fragment) (category component : Json) : Prop :=
  f.key? .sectionKey = none ∧ ∃ k, f.key? .component = some k ∧ component.same k = true ∧
    category.same ((b.atFile f.file).categoryFor default f) = true

/-- **One step lets the catalog grow.** -/
theorem grows_step (default : Json) (b : Builder) (f : Fragment) :
    b.catalog.Grows (b.Relabels default f) (b.step default f).catalog := by
  rcases catalog_step_cases default b f with ⟨k, hk, hstep⟩ | ⟨category, k, hstep⟩ | hstep
  · rw [hstep]
    apply (b.catalog.grows_enter _ k f).mono
    rintro category component ⟨hsection, hcategory, hcomponent⟩
    exact ⟨hsection, k, hk, hcomponent, hcategory⟩
  · rw [hstep]
    apply (b.catalog.grows_addProps category k f.props).mono
    intro _ _ hfalse
    exact hfalse.elim
  · rw [hstep]
    exact .refl _ _

/-- **A run lets the catalog grow.** A component is relabelled only by a block that does so when its
turn comes. -/
theorem grows_run (default : Json) (b : Builder) (fs : List Fragment) :
    b.catalog.Grows (fun category component => ∃ before f after, fs = before ++ f :: after ∧
      (b.run default before).Relabels default f category component) (b.run default fs).catalog := by
  induction fs generalizing b with
  | nil => exact .refl _ _
  | cons f fs ih =>
    -- The first fragment relabels in the first step, a later one in the rest of the run.
    apply ((b.grows_step default f).trans (ih (b.step default f))).mono
    rintro category component (hnow | ⟨before, g, after, rfl, hlater⟩)
    · exact ⟨[], f, fs, rfl, hnow⟩
    · exact ⟨f :: before, g, after, rfl, hlater⟩

/-- A step that succeeds is the step without faults. -/
theorem eq_step_of_apply {b b' : Builder} {f : Fragment} (h : b.apply default f = .ok b') :
    b' = b.step default f := by
  unfold apply at h
  split at h
  · exact nomatch h
  · exact (Except.ok.inj h).symm

end Builder

/-- A build that succeeds is the extension without faults. -/
theorem Catalog.eq_extend_of_build {default : Json} {t t' : Catalog} {fs : List Fragment}
    (h : t.build default fs = .ok t') : t' = t.extend default fs := by
  unfold build at h
  split at h
  · exact nomatch h
  · exact (Except.ok.inj h).symm

/-- **What is documented first stays.** Whatever the builder has seen, a fragment that can be
entered lets the catalog grow, and gives labels only to a component that it declares without a
section. So any fragments extend any catalog, and a component has new labels only if one of the
fragments gives them to it when its turn comes. -/
theorem catalog_grows (default : Json) :
    (∀ (b b' : Builder) (f : Fragment), b.apply default f = .ok b' →
      b.catalog.Grows (b.Relabels default f) b'.catalog) ∧
    ∀ (t t' : Catalog) (fs : List Fragment), t.build default fs = .ok t' →
      t.Grows (fun category component => ∃ before f after, fs = before ++ f :: after ∧
        (Builder.run default { catalog := t } before).Relabels default f category component)
          t' := by
  constructor
  · intro b b' f happly
    rw [Builder.eq_step_of_apply happly]
    exact b.grows_step default f
  · intro t t' fs hbuild
    rw [Catalog.eq_extend_of_build hbuild]
    exact Builder.grows_run default { catalog := t } fs

/-- A second block of a section adds its variant, and leaves the section as it was. -/
theorem catalog_grows_repeated_section :
    let f : Fragment := { file := "b.js", start := .int 1, stop := .int 5, tags :=
      [(.component, [.data "button"]), (.name, [.data "New"]), (.sectionKey, [.data "default"]),
        (.variation, [.data "small"])] }
    let s : Section := { key := "default", name := "Old" }
    let t : Catalog := ⟨[{ key := "Inputs", components :=
      [{ key := "button", name := "Button", sections := [s] }] }]⟩
    let t' : Catalog := ⟨[{ key := "Inputs", components :=
      [{ key := "button", name := "Button",
         sections := [{ s with variants := [{ key := "small" }] }] }] }]⟩
    t.build "Inputs" [f] = .ok t' ∧ Builder.apply "Inputs" { catalog := t } f =
        .ok { catalog := t', file := "b.js", category := "Inputs", component := "button" } ∧
      t.Grows (Builder.Relabels "Inputs" { catalog := t } f) t' ∧
      t.Grows (fun category component => ∃ before g after, [f] = before ++ g :: after ∧
        (Builder.run "Inputs" { catalog := t } before).Relabels "Inputs" g category component)
          t' := by
  intro f s t t'
  have hbuild : t.build "Inputs" [f] = .ok t' := rfl
  have happly : Builder.apply "Inputs" { catalog := t } f =
      .ok { catalog := t', file := "b.js", category := "Inputs", component := "button" } := rfl
  exact ⟨hbuild, happly, (catalog_grows "Inputs").1 _ _ f happly,
    (catalog_grows "Inputs").2 t t' [f] hbuild⟩

end StyleGuide
