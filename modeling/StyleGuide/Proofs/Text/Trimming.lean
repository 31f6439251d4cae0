import Mathlib.Data.List.TakeWhile
import StyleGuide.Text.Blank

/-!
# What trimming leaves

Trimming takes blanks from the ends of a text and nothing else: what is dropped at an end is of the
class that is dropped there (`exists_dropEndWhile_append`), and blanks that are put around a text
are trimmed away again.
-/

namespace StyleGuide.Text

variable {f : Char → Bool} {p q t : Text}

@[simp] theorem isBlank_space : isBlank ' ' = true := by decide

@[simp] theorem isBlank_newline : isBlank '\n' = true := by decide

/-! ### The characters of a class at an end -/

/-- A character that stays keeps all before it. -/
theorem dropEndWhile_append (hq : ∃ c ∈ q, f c = false) :
    dropEndWhile f (p ++ q) = p ++ dropEndWhile f q := by
  have hne : ¬q.reverse.dropWhile f = [] := by
    rw [List.dropWhile_eq_nil_iff]
    intro hall
    obtain ⟨c, hc, hfc⟩ := hq
    simp [hall c (List.mem_reverse.mpr hc)] at hfc
  simp [dropEndWhile, List.dropWhile_append, hne]

theorem dropEndWhile_append_of_all (hq : ∀ c ∈ q, f c = true) :
    dropEndWhile f (p ++ q) = dropEndWhile f p := by
  have hnil : q.reverse.dropWhile f = [] := by
    rw [List.dropWhile_eq_nil_iff]
    intro c hc
    exact hq c (List.mem_reverse.mp hc)
  simp [dropEndWhile, List.dropWhile_append, hnil]

theorem dropEndWhile_eq_nil_iff : dropEndWhile f t = [] ↔ ∀ c ∈ t, f c = true := by
  simp [dropEndWhile, List.dropWhile_eq_nil_iff]

theorem dropEndWhile_cons {c : Char} (hc : f c = false) (t : Text) :
    dropEndWhile f (c :: t) = c :: dropEndWhile f t := by
  by_cases h : ∃ d ∈ t, f d = false
  · exact dropEndWhile_append (p := [c]) h
  · have hall : ∀ d ∈ t, f d = true := by simpa using h
    rw [dropEndWhile_eq_nil_iff.mpr hall]
    exact (dropEndWhile_append_of_all (p := [c]) hall).trans (by simp [dropEndWhile, hc])

/-- Only characters of the class are dropped. -/
theorem exists_dropEndWhile_append (f : Char → Bool) (t : Text) :
    ∃ rest, t = dropEndWhile f t ++ rest ∧ ∀ c ∈ rest, f c = true := by
  refine ⟨(t.reverse.takeWhile f).reverse, ?_, ?_⟩
  · rw [dropEndWhile, ← List.reverse_append, List.takeWhile_append_dropWhile, List.reverse_reverse]
  · intro c hc
    exact List.all_eq_true.mp List.all_takeWhile c (List.mem_reverse.mp hc)

theorem dropEndWhile_prefixOf (f : Char → Bool) (t : Text) : dropEndWhile f t <+: t := by
  obtain ⟨rest, ht, -⟩ := exists_dropEndWhile_append f t
  exact ⟨rest, ht.symm⟩

/-! ### Trimming -/

/-- What is trimmed at the start is blank. -/
theorem exists_append_trimStart (t : Text) :
    ∃ lead, t = lead ++ trimStart t ∧ ∀ c ∈ lead, isBlank c = true :=
  ⟨t.takeWhile isBlank, List.takeWhile_append_dropWhile.symm,
    List.all_eq_true.mp List.all_takeWhile⟩

theorem trim_infixOf (t : Text) : trim t <:+: t :=
  (dropEndWhile_prefixOf isBlank _).isInfix.trans (List.dropWhile_suffix isBlank).isInfix

/-- With a character that stays in front, nothing behind it is trimmed. -/
theorem trimStart_append (hp : ∃ c ∈ p, isBlank c = false) :
    trimStart (p ++ q) = trimStart p ++ q := by
  have hne : ¬p.dropWhile isBlank = [] := by
    rw [List.dropWhile_eq_nil_iff]
    intro hall
    obtain ⟨c, hc, hbc⟩ := hp
    simp [hall c hc] at hbc
  simp [trimStart, List.dropWhile_append, hne]

theorem trimEnd_append (hq : ∃ c ∈ q, isBlank c = false) : trimEnd (p ++ q) = p ++ trimEnd q :=
  dropEndWhile_append hq

theorem exists_not_blank (ht : trimEnd t = t) (hne : t ≠ []) : ∃ c ∈ t, isBlank c = false := by
  by_contra hnone
  have hall : ∀ c ∈ t, isBlank c = true := by simpa using hnone
  exact hne (ht.symm.trans (dropEndWhile_eq_nil_iff.mpr hall))

/-- Blank texts are trimmed away, and no others. -/
theorem trim_eq_nil_iff : trim t = [] ↔ ∀ c ∈ t, isBlank c = true := by
  obtain ⟨lead, ht, hlead⟩ := exists_append_trimStart t
  constructor
  · intro h c hc
    rw [ht, List.mem_append] at hc
    rcases hc with hc | hc
    · exact hlead c hc
    · exact dropEndWhile_eq_nil_iff.mp h c hc
  · intro h
    apply dropEndWhile_eq_nil_iff.mpr
    intro c hc
    exact h c ((List.dropWhile_suffix isBlank).subset hc)

theorem trim_append_left (hp : ∀ c ∈ p, isBlank c = true) : trim (p ++ t) = trim t := by
  unfold trim trimStart
  rw [List.dropWhile_append_of_pos hp]

theorem trim_append_right (hq : ∀ c ∈ q, isBlank c = true) : trim (t ++ q) = trim t := by
  unfold trim trimStart
  rw [List.dropWhile_append]
  split
  · next h =>
    rw [List.isEmpty_iff] at h
    rw [h, List.dropWhile_eq_nil_iff.mpr hq]
  · exact dropEndWhile_append_of_all hq

/-- Blanks that are dropped from the end would be trimmed. -/
theorem trim_dropEndWhile (hf : ∀ c, f c = true → isBlank c = true) (t : Text) :
    trim (dropEndWhile f t) = trim t := by
  obtain ⟨rest, ht, hrest⟩ := exists_dropEndWhile_append f t
  conv => rhs; rw [ht]
  exact (trim_append_right fun c hc => hf c (hrest c hc)).symm

theorem trimEnd_cons {c : Char} (hc : isBlank c = false) (t : Text) :
    trimEnd (c :: t) = c :: trimEnd t :=
  dropEndWhile_cons hc t

/-- Blanks that are dropped from the end would be trimmed there. -/
theorem trimEnd_dropEndWhile (hf : ∀ c, f c = true → isBlank c = true) (t : Text) :
    trimEnd (dropEndWhile f t) = trimEnd t := by
  obtain ⟨rest, ht, hrest⟩ := exists_dropEndWhile_append f t
  conv => rhs; rw [ht]
  exact (dropEndWhile_append_of_all fun c hc => hf c (hrest c hc)).symm

theorem trim_cons {c : Char} (hc : isBlank c = false) (t : Text) :
    trim (c :: t) = c :: trimEnd t := by
  have hstart : trimStart (c :: t) = c :: t := List.dropWhile_cons_of_neg (by simp [hc])
  rw [trim, hstart, trimEnd_cons hc]

/-- There is nothing to trim in a word. -/
theorem trim_of_forall_not_blank (ht : ∀ c ∈ t, isBlank c = false) : trim t = t := by
  induction t with
  | nil => rfl
  | cons c t ih =>
    obtain ⟨hc, hrest⟩ := List.forall_mem_cons.mp ht
    cases t with
    | nil => exact trim_cons hc []
    | cons d t =>
      rw [trim_cons hc, trimEnd_cons (hrest d List.mem_cons_self), ← trim_cons, ih hrest]
      exact hrest d List.mem_cons_self

/-! ### Squeezing -/

/-- Blanks ahead of a text are one blank ahead of the collapsed text. -/
theorem trimStart_collapse (inRun : Bool) (t : Text) :
    trimStart (collapse inRun t) = collapse false (trimStart t) := by
  induction t generalizing inRun with
  | nil => cases inRun <;> rfl
  | cons c t ih =>
    rw [collapse]
    by_cases hc : isBlank c = true
    · cases inRun
      · simpa [trimStart, hc] using ih true
      · simpa [trimStart, hc] using ih true
    · simp [trimStart, hc, collapse]

theorem squeeze_eq (t : Text) : squeeze t = trimEnd (collapse false (trimStart t)) := by
  rw [squeeze, trim, trimStart_collapse]

@[simp] theorem squeeze_trimStart (t : Text) : squeeze (trimStart t) = squeeze t := by
  obtain ⟨lead, ht, hlead⟩ := exists_append_trimStart t
  have hidem : trimStart (trimStart t) = trimStart t := by
    conv => rhs; rw [ht]
    exact (List.dropWhile_append_of_pos hlead).symm
  rw [squeeze_eq, squeeze_eq, hidem]

/-- At the start of a text, and behind a blank, further blanks are dropped. -/
theorem collapse_true (t : Text) : collapse true t = collapse false (trimStart t) := by
  induction t with
  | nil => rfl
  | cons c t ih =>
    by_cases hc : isBlank c = true
    · simpa [collapse, trimStart, hc] using ih
    · simp [collapse, trimStart, hc]

/-- Collapsing as if in a run of blanks trims the start. -/
theorem squeeze_eq_trimEnd (t : Text) : squeeze t = trimEnd (collapse true t) := by
  rw [squeeze_eq, collapse_true]

/-- Texts that are collapsed alike are so behind any other text. -/
theorem collapse_append_congr (h : ∀ inRun, collapse inRun p = collapse inRun q) (t : Text)
    (inRun : Bool) : collapse inRun (t ++ p) = collapse inRun (t ++ q) := by
  induction t generalizing inRun with
  | nil => exact h inRun
  | cons c t ih => rw [List.cons_append, List.cons_append, collapse, collapse, ih, ih]

/-- A space behind a blank makes no difference. -/
theorem collapse_cons_space {c : Char} (hc : isBlank c = true) (t : Text) (inRun : Bool) :
    collapse inRun (c :: ' ' :: t) = collapse inRun (c :: t) := by
  simp [collapse, hc]

/-- A text can be cut at a visible character before or after it is collapsed. -/
theorem cut?_collapse {c : Char} (hc : isBlank c = false) (t : Text) (inRun : Bool) :
    cut? [c] (collapse inRun t) =
      (cut? [c] t).map fun parts => (collapse inRun parts.1, collapse false parts.2) := by
  have hspace : ¬c = ' ' := by
    rintro rfl
    simp at hc
  induction t generalizing inRun with
  | nil => rfl
  | cons d t ih =>
    by_cases hd : isBlank d = true
    · have hcd : ¬c = d := by
        rintro rfl
        rw [hc] at hd
        cases hd
      cases inRun <;> simp [collapse, cut?, hd, hcd, hspace, ih, Function.comp_def]
    · by_cases hcd : c = d
      · simp [collapse, cut?, hd, hcd]
      · simp [collapse, cut?, hd, hcd, ih, Function.comp_def]

end StyleGuide.Text
