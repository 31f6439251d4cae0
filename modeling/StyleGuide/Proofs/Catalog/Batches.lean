import StyleGuide.Catalog.Fold
import StyleGuide.Proofs.Json.Fields

/-!
# Building in batches

Fragments may come in batches, each of which extends the catalog that the last one has left. A new
batch starts with a builder that has seen no file yet, where a run in one go would still be in the
file of the fragment before. The main statement, `build_append_of_new_file`, is that the result is
the same if the new batch starts with another file.

The reason is that a builder that comes to a new file keeps nothing but its catalog (`forget`). So
it does not matter whether it has forgotten the rest before.
-/

namespace StyleGuide

theorem Json.eq_null_of_same {v : Json} (h : Json.null.same v = true) : v = .null := by
  cases v with
  | null => rfl
  | double x =>
    simp only [same, canonical, Key.canonical] at h
    cases hx : x.toInt? <;> simp [hx, Key.toJson] at h
  | _ => simp [same, canonical, Key.canonical, Key.toJson] at h

namespace Builder

variable {default : Json} {b : Builder} {f : Fragment} {fs gs : List Fragment}

/-! ### Coming to a new file -/

/-- The builder as it starts with the catalog that it has. -/
def forget (b : Builder) : Builder := { catalog := b.catalog }

theorem atFile_forget {file : Json} (h : b.file.same file = false) :
    b.forget.atFile file = b.atFile file := by
  have hnew : b.atFile file = { catalog := b.catalog, file } := by rw [atFile, h]; rfl
  rw [hnew, forget, atFile]
  split
  · next hnull =>
    -- The builder is in no file, and that is where the fragment belongs.
    rw [Json.eq_null_of_same hnull]
  · rfl

/-- At a new file it makes no difference what was declared before. -/
theorem step_forget (h : b.file.same f.file = false) :
    b.forget.step default f = b.step default f := by
  rw [step, atFile_forget h, step]

theorem fault?_forget (h : b.file.same f.file = false) :
    b.forget.fault? default f = b.fault? default f := by
  rw [fault?, atFile_forget h, fault?]

/-! ### Runs -/

theorem run_append (default : Json) (b : Builder) (fs gs : List Fragment) :
    b.run default (fs ++ gs) = (b.run default fs).run default gs :=
  List.foldl_append

/-- The first fault of two lists is that of the first one, or else that of the second one. -/
theorem runFault?_append (default : Json) (b : Builder) (fs gs : List Fragment) :
    b.runFault? default (fs ++ gs) =
      (b.runFault? default fs).or ((b.run default fs).runFault? default gs) := by
  induction fs generalizing b with
  | nil => rfl
  | cons f fs ih =>
    rw [List.cons_append, runFault?, ih, runFault?, Option.or_assoc]
    rfl

/-- A run from a new file on gives the same catalog and the same fault, whatever was declared
before. -/
theorem run_forget (h : ∀ f, fs.head? = some f → b.file.same f.file = false) :
    (b.forget.run default fs).catalog = (b.run default fs).catalog ∧
      b.forget.runFault? default fs = b.runFault? default fs := by
  cases fs with
  | nil => exact ⟨rfl, rfl⟩
  | cons f fs =>
    have hf := h f rfl
    constructor
    · show ((b.forget.step default f).run default fs).catalog = _
      rw [step_forget hf]
      rfl
    · rw [runFault?, runFault?, step_forget hf, fault?_forget hf]

theorem file_step (default : Json) (b : Builder) (f : Fragment) :
    (b.step default f).file = (b.atFile f.file).file := by
  rw [step]
  cases f.key? .component with
  | some component => rfl
  | none =>
    have hheader : ((b.atFile f.file).header f).file = (b.atFile f.file).file := by
      rw [header]
      split <;> rfl
    rw [← hheader]
    show ((b.atFile f.file).enterLoose f).file = _
    rw [enterLoose]
    split <;> rfl

theorem file_atFile_same (b : Builder) (file : Json) : (b.atFile file).file.same file = true := by
  rw [atFile]
  split
  · assumption
  · exact Json.same_refl file

/-- After a run the builder is in the file of the last fragment. -/
theorem file_run_same (h : fs.getLast? = some f) : (b.run default fs).file.same f.file = true := by
  obtain ⟨before, rfl⟩ := List.getLast?_eq_some_iff.mp h
  rw [run_append]
  show ((b.run default before).step default f).file.same f.file = true
  rw [file_step]
  exact file_atFile_same _ _

end Builder

/-! ### Batches -/

/-- The second list starts with another file than the first one ends with, or one of them is
empty. -/
def StartsNewFile (a b : List Fragment) : Prop :=
  ∀ f g, a.getLast? = some f → b.head? = some g → f.file.same g.file = false

section

variable {default : Json} {t : Catalog} {a b : List Fragment}

/-- Between two batches the builder may forget all but its catalog. -/
theorem run_forget_of_startsNewFile (h : StartsNewFile a b) :
    let before := Builder.run default { catalog := t } a
    (before.forget.run default b).catalog = (before.run default b).catalog ∧
      before.forget.runFault? default b = before.runFault? default b := by
  cases ha : a.getLast? with
  | none =>
    obtain rfl := List.getLast?_eq_none_iff.mp ha
    exact ⟨rfl, rfl⟩
  | some f =>
    apply Builder.run_forget
    intro g hg
    rw [Json.same_congr_left (Builder.file_run_same ha)]
    exact h f g ha hg

/-- Fragments that start with a new file can be entered later. -/
theorem Catalog.extend_append (h : StartsNewFile a b) :
    t.extend default (a ++ b) = (t.extend default a).extend default b := by
  rw [extend, Builder.run_append, ← (run_forget_of_startsNewFile h).1]
  rfl

theorem Catalog.runFault?_append_of_startsNewFile (h : StartsNewFile a b) :
    Builder.runFault? default { catalog := t } (a ++ b) =
      (Builder.runFault? default { catalog := t } a).or
        (Builder.runFault? default { catalog := t.extend default a } b) := by
  rw [Builder.runFault?_append, ← (run_forget_of_startsNewFile h).2]
  rfl

end

/-- **Batches.** If the second of two lists of fragments starts with another file than the first one
ends with, or one of them is empty, then extending a catalog by both at once is extending it by the
first one and then by the second one, faults included. -/
theorem build_append_of_new_file (default : Json) (t : Catalog) (a b : List Fragment)
    (h : StartsNewFile a b) :
    t.build default (a ++ b) = t.build default a >>= fun u => u.build default b := by
  rw [Catalog.build, Catalog.runFault?_append_of_startsNewFile h, Catalog.extend_append h,
    Catalog.build]
  cases Builder.runFault? default { catalog := t } a <;> rfl

/-- The category and the component of one file are not those of the next one, in which a component
is declared without a category, behind a block that has only a property. -/
theorem build_append_of_new_file_two_files :
    let size : Property :=
      { name := "size", type := "string", description := "", default := .null,
        required := .bool true, library := "react" }
    let t : Catalog := ⟨[{ key := "Layout", components := [{ key := "grid" }] }]⟩
    let a : List Fragment :=
      [{ file := "a.js", start := .int 1, stop := .int 1, tags := [(.category, [.data "Inputs"])] },
        { file := "a.js", start := .int 2, stop := .int 4,
          tags := [(.component, [.data "button"])] }]
    let b : List Fragment :=
      [{ file := "b.js", start := .int 1, stop := .int 2, tags := [(.prop, [.prop size])] },
        { file := "b.js", start := .int 3, stop := .int 4, tags := [(.component, [.data "tab"])] }]
    StartsNewFile a b ∧
      t.build "Other" (a ++ b) = (t.build "Other" a >>= fun u => u.build "Other" b) ∧
      t.build "Other" (a ++ b) = .ok ⟨[{ key := "Layout", components := [{ key := "grid" }] },
        { key := "Inputs", components := [{ key := "button" }] },
        { key := "Other", components := [{ key := "tab" }] }]⟩ := by
  intro size t a b
  have hfiles : StartsNewFile a b := by
    intro f g hf hg
    cases hf
    cases hg
    rfl
  exact ⟨hfiles, build_append_of_new_file "Other" t a b hfiles, rfl⟩

end StyleGuide
