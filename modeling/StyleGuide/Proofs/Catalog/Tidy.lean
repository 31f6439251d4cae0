import StyleGuide.Proofs.Catalog.Growth
import StyleGuide.Proofs.Json.Fields

/-!
# Keys in the catalog

Every level of the catalog is a list that is searched by key. In a tidy catalog no two items of a
list have the same key, so that each is found by its own; no key is empty; and nothing is there
without a reason: a category has a component, a property table has a property. Properties stand in
the table of their library.

Entering a block keeps a catalog tidy, whatever values the block has. The argument is the same at
every level, and it is made once for `upsert`.
-/

namespace StyleGuide

/-! ### Lists with keys -/

section Keys

variable {α : Type} {key : α → Json} {xs : List α} {P : α → Prop}

/-- What holds of all entries, of a changed one and of a new one holds after an `upsert`. -/
theorem forall_mem_upsert {test : α → Bool} {change : α → α} {new : α} (h : ∀ x ∈ xs, P x)
    (hchange : ∀ x ∈ xs, test x = true → P (change x)) (hnew : P new) :
    ∀ x ∈ upsert test change new xs, P x := by
  induction xs with
  | nil => exact List.forall_mem_singleton.mpr hnew
  | cons x xs ih =>
    obtain ⟨hx, hxs⟩ := List.forall_mem_cons.mp h
    obtain ⟨hchangex, hchangexs⟩ := List.forall_mem_cons.mp hchange
    rw [upsert]
    split
    · next htest => exact List.forall_mem_cons.mpr ⟨hchangex htest, hxs⟩
    · exact List.forall_mem_cons.mpr ⟨hx, ih hxs hchangexs⟩

theorem upsert_ne_nil (test : α → Bool) (change : α → α) (new : α) (xs : List α) :
    upsert test change new xs ≠ [] := by
  cases xs with
  | nil => exact List.cons_ne_nil _ _
  | cons x xs =>
    rw [upsert]
    split <;> exact List.cons_ne_nil _ _

/-- No two items have the same key. -/
def DistinctBy (key : α → Json) (xs : List α) : Prop :=
  xs.Pairwise fun x y => (key x).same (key y) = false

namespace DistinctBy

/-- Changing an item or adding one keeps keys distinct, if the changed item keeps its key and the
new one has the key that is looked for. -/
theorem upsert {k : Json} {change : α → α} {new : α} (h : DistinctBy key xs)
    (hchange : ∀ x, key (change x) = key x) (hnew : (key new).same k = true) :
    DistinctBy key (upsert (fun x => (key x).same k) change new xs) := by
  induction xs with
  | nil => exact List.pairwise_singleton _ _
  | cons x xs ih =>
    obtain ⟨hx, hxs⟩ := List.pairwise_cons.mp h
    rw [StyleGuide.upsert]
    split
    · refine List.pairwise_cons.mpr ⟨?_, hxs⟩
      intro y hy
      rw [hchange]
      exact hx y hy
    · next htest =>
      -- What is changed or added behind `x` does not take its key.
      refine List.pairwise_cons.mpr ⟨?_, ih hxs⟩
      apply forall_mem_upsert hx
      · intro y hy _
        rw [hchange]
        exact hx y hy
      · rw [Json.same_congr_right hnew]
        exact Bool.eq_false_iff.mpr htest

theorem map {g : α → α} (h : DistinctBy key xs) (hg : ∀ x, key (g x) = key x) :
    DistinctBy key (xs.map g) := by
  apply List.pairwise_map.mpr
  apply List.Pairwise.imp _ h
  intro x y hxy
  rw [hg, hg]
  exact hxy

/-- An item is found by its own key. -/
theorem find?_key (h : DistinctBy key xs) {x : α} (hx : x ∈ xs) :
    xs.find? (fun y => (key y).same (key x)) = some x := by
  induction xs with
  | nil => exact nomatch hx
  | cons y ys ih =>
    obtain ⟨hy, hys⟩ := List.pairwise_cons.mp h
    rcases List.mem_cons.mp hx with rfl | hx
    · exact List.find?_cons_of_pos (Json.same_refl (key x))
    · rw [List.find?_cons_of_neg (by simp [hy x hx]), ih hys hx]

end DistinctBy

end Keys

/-! ### Tidy catalogs -/

/-- The section has a key, and so has each of its variants. -/
structure Section.Tidy (s : Section) : Prop where
  key : s.key.isTruthy = true
  variants : DistinctBy Variant.key s.variants
  variantKeys : ∀ v ∈ s.variants, v.key.isTruthy = true

/-- The table has properties of its library, each with a name of its own. -/
structure PropertyTable.Tidy (t : PropertyTable) : Prop where
  props : DistinctBy Property.name t.props
  nonempty : t.props ≠ []
  library : ∀ p ∈ t.props, t.library.same p.library = true
  names : ∀ p ∈ t.props, p.name.isTruthy = true

structure Component.Tidy (c : Component) : Prop where
  key : c.key.isTruthy = true
  sections : DistinctBy Section.key c.sections
  tidySections : ∀ s ∈ c.sections, s.Tidy
  tables : DistinctTables c.tables
  tidyTables : ∀ t ∈ c.tables, t.Tidy

structure Category.Tidy (c : Category) : Prop where
  nonempty : c.components ≠ []
  components : DistinctBy Component.key c.components
  tidyComponents : ∀ k ∈ c.components, k.Tidy

structure Catalog.Tidy (t : Catalog) : Prop where
  categories : DistinctBy Category.key t.categories
  tidyCategories : ∀ c ∈ t.categories, c.Tidy

theorem Catalog.tidy_empty : Catalog.Tidy {} :=
  ⟨List.Pairwise.nil, fun _ hc => nomatch hc⟩

theorem Fragment.isTruthy_key? {f : Fragment} {kind : TagKind} {k : Json}
    (h : f.key? kind = some k) :
    k.isTruthy = true :=
  (Option.filter_eq_some_iff.mp h).2

/-! ### Components -/

@[simp] theorem Section.key_withVariantOf (s : Section) (f : Fragment) :
    (s.withVariantOf f).key = s.key := by
  rw [(s.grows_withVariantOf f).fields]

theorem Section.Tidy.withVariantOf {s : Section} (h : s.Tidy) (f : Fragment) :
    (s.withVariantOf f).Tidy := by
  unfold Section.withVariantOf
  split
  · next variant hvariant =>
    rw [Section.addVariant_eq]
    refine ⟨h.key, h.variants.upsert (fun _ => rfl) (Json.same_refl variant), ?_⟩
    apply forall_mem_upsert h.variantKeys
    · intro v hv _
      exact h.variantKeys v hv
    · exact Fragment.isTruthy_key? hvariant
  · exact h

theorem Fragment.tidy_toSection (f : Fragment) {key : Json} (hkey : key.isTruthy = true) :
    (f.toSection key).Tidy :=
  ⟨hkey, List.Pairwise.nil, fun _ hv => nomatch hv⟩

/-- A table stays tidy if a property of its library is added that has a name. -/
theorem PropertyTable.Tidy.addToTable {t : PropertyTable} (h : t.Tidy) {p : Property}
    (hlibrary : t.library.same p.library = true) (hname : p.name.isTruthy = true) :
    (Component.addToTable p t).Tidy where
  props := h.props.upsert (fun _ => rfl) (Json.same_refl p.name)
  nonempty := upsert_ne_nil _ _ _ _
  library := forall_mem_upsert h.library (fun q hq _ => h.library q hq) hlibrary
  names := forall_mem_upsert h.names (fun q hq _ => h.names q hq) hname

namespace Component.Tidy

variable {c : Component}

theorem addProp (h : c.Tidy) {p : Property} (hname : p.name.isTruthy = true) :
    (c.addProp p).Tidy := by
  rw [addProp_tables c p h.tables]
  have hnew : PropertyTable.Tidy ⟨p.library, [p]⟩ := {
    props := List.pairwise_singleton _ _
    nonempty := List.cons_ne_nil _ _
    library := List.forall_mem_singleton.mpr (Json.same_refl p.library)
    names := List.forall_mem_singleton.mpr hname }
  refine { h with tables := ?_, tidyTables := ?_ }
  · exact DistinctBy.upsert h.tables (fun _ => rfl) (Json.same_refl p.library)
  · exact forall_mem_upsert h.tidyTables
      (fun t ht hlibrary => (h.tidyTables t ht).addToTable hlibrary hname) hnew

theorem addProps (h : c.Tidy) (ps : List Property) : (c.addProps ps).Tidy := by
  induction ps generalizing c with
  | nil => exact h
  | cons p ps ih =>
    show (Component.addProps (if p.name.isTruthy then c.addProp p else c) ps).Tidy
    split
    · next hname => exact ih (h.addProp hname)
    · exact ih h

/-- Entering a fragment keeps a component tidy. -/
theorem enter (h : c.Tidy) (f : Fragment) : (c.enter f).Tidy := by
  apply addProps
  cases hkey : f.key? .sectionKey with
  | none =>
    rw [enterVariant_enterSection_of_none hkey]
    exact h
  | some key =>
    have hnew := (f.tidy_toSection (Fragment.isTruthy_key? hkey)).withVariantOf f
    rw [enterVariant_enterSection hkey]
    refine { h with sections := ?_, tidySections := ?_ }
    · apply h.sections.upsert
      · intro s
        exact s.key_withVariantOf f
      · rw [Section.key_withVariantOf]
        exact Json.same_refl key
    · exact forall_mem_upsert h.tidySections
        (fun s hs _ => (h.tidySections s hs).withVariantOf f) hnew

theorem redeclare (h : c.Tidy) (f : Fragment) : (c.redeclare f).Tidy := by
  unfold Component.redeclare
  split
  · exact h
  · exact { h with }

end Component.Tidy

theorem Component.tidy_ofFragment (f : Fragment) {key : Json} (hkey : key.isTruthy = true) :
    (Component.ofFragment key f).Tidy :=
  ⟨hkey, List.Pairwise.nil, (fun _ hs => nomatch hs), List.Pairwise.nil, fun _ ht => nomatch ht⟩

/-! ### The catalog -/

/-- A block that declares a component, entered into a category, which may be empty. -/
theorem Category.tidy_declare {c : Category} (hdistinct : DistinctBy Component.key c.components)
    (htidy : ∀ k ∈ c.components, k.Tidy) {component : Json} (hkey : component.isTruthy = true)
    (f : Fragment) :
    (c.modifyComponent component (.ofFragment component f)
      fun k => (k.redeclare f).enter f).Tidy := by
  unfold modifyComponent
  rw [modifyComponent_eq_upsert]
  constructor
  · exact upsert_ne_nil _ _ _ _
  · apply hdistinct.upsert
    · intro k
      exact (k.grows_declared f).key
    · rw [(Component.grows_declared _ f).key]
      exact Json.same_refl component
  · apply forall_mem_upsert htidy
    · intro k hk _
      exact ((htidy k hk).redeclare f).enter f
    · exact ((Component.tidy_ofFragment f hkey).redeclare f).enter f

namespace Catalog.Tidy

variable {t : Catalog}

/-- A component of the catalog is changed in its place, or a new one has a key of its own. -/
theorem enter (h : t.Tidy) (category : Json) {component : Json} (hkey : component.isTruthy = true)
    (f : Fragment) : (t.enter category component f).Tidy := by
  unfold Catalog.enter modifyCategory
  rw [modifyCategory_eq_upsert]
  constructor
  · exact h.categories.upsert (fun _ => rfl) (Json.same_refl category)
  · apply forall_mem_upsert h.tidyCategories
    · intro c hc _
      have hc := h.tidyCategories c hc
      exact Category.tidy_declare hc.components hc.tidyComponents hkey f
    · apply Category.tidy_declare _ _ hkey f
      · exact List.Pairwise.nil
      · exact fun _ hk => nomatch hk

theorem addProps (h : t.Tidy) (category component : Json) (ps : List Property) :
    (t.addProps category component ps).Tidy := by
  constructor
  · apply h.categories.map
    intro c
    split <;> rfl
  · intro c' hc'
    obtain ⟨c, hc, rfl⟩ := List.mem_map.mp hc'
    have hc := h.tidyCategories c hc
    split
    · constructor
      · exact mt List.map_eq_nil_iff.mp hc.nonempty
      · apply hc.components.map
        intro k
        split
        · exact (k.grows_addProps ps).key
        · rfl
      · intro k' hk'
        obtain ⟨k, hk, rfl⟩ := List.mem_map.mp hk'
        split
        · exact (hc.tidyComponents k hk).addProps ps
        · exact hc.tidyComponents k hk
    · exact hc

end Catalog.Tidy

/-- **A step keeps the catalog tidy.** -/
theorem Builder.tidy_step {b : Builder} (h : b.catalog.Tidy) (default : Json) (f : Fragment) :
    (b.step default f).catalog.Tidy := by
  rcases catalog_step_cases default b f with ⟨k, hk, hstep⟩ | ⟨category, k, hstep⟩ | hstep
  · rw [hstep]
    exact h.enter _ (Fragment.isTruthy_key? hk) f
  · rw [hstep]
    exact h.addProps category k f.props
  · rw [hstep]
    exact h

/-- **A run keeps the catalog tidy.** -/
theorem Builder.tidy_run {b : Builder} (h : b.catalog.Tidy) (default : Json) (fs : List Fragment) :
    (b.run default fs).catalog.Tidy := by
  induction fs generalizing b with
  | nil => exact h
  | cons f fs ih => exact ih (tidy_step h default f)

end StyleGuide
