import Mathlib.Data.List.Chain
import StyleGuide.Proofs.Text.Trimming

/-!
# Squeezed texts

A squeezed text has no blanks but single spaces inside of it. Every text is squeezed once `squeeze`
has gone over it (`isSqueezed_squeeze`), and squeezed texts are just those that `squeeze` leaves as
they are (`squeeze_eq_self_iff`). So to go over a text again changes nothing.
-/

namespace StyleGuide.Text

variable {f : Char → Bool} {t : Text} {inRun : Bool}

/-! ### Ends that are trimmed -/

theorem dropWhile_eq_self_iff : t.dropWhile f = t ↔ ∀ c ∈ t.head?, f c = false := by
  rw [List.dropWhile_eq_self_iff]
  cases t with
  | nil => simp
  | cons c t => simp

/-- Nothing is dropped at the end exactly if the last character stays. -/
theorem dropEndWhile_eq_self_iff : dropEndWhile f t = t ↔ ∀ c ∈ t.getLast?, f c = false := by
  rw [dropEndWhile, ← List.reverse_inj, List.reverse_reverse, dropWhile_eq_self_iff,
    List.head?_reverse]

theorem trimEnd_trimEnd (t : Text) : trimEnd (trimEnd t) = trimEnd t :=
  trimEnd_dropEndWhile (fun _ => id) t

theorem not_isBlank_getLast?_trimEnd (t : Text) : ∀ c ∈ (trimEnd t).getLast?, isBlank c = false :=
  dropEndWhile_eq_self_iff.mp (trimEnd_trimEnd t)

/-- What a text starts with, it still starts with once its end is trimmed, if anything is left. -/
theorem head?_trimEnd {c : Char} (hc : c ∈ (trimEnd t).head?) : c ∈ t.head? := by
  obtain ⟨rest, ht⟩ : trimEnd t <+: t := dropEndWhile_prefixOf isBlank t
  obtain ⟨more, hmore⟩ := List.head?_eq_some_iff.mp hc
  rw [← ht, hmore]
  rfl

/-! ### Squeezed texts -/

/-- Every blank of the text is a space; it stands neither at an end nor beside another one. -/
structure IsSqueezed (t : Text) : Prop where
  spaces : ∀ c ∈ t, isBlank c = true → c = ' '
  single : t.IsChain fun c d => isBlank c = true → isBlank d = false
  start : ∀ c ∈ t.head?, isBlank c = false
  stop : ∀ c ∈ t.getLast?, isBlank c = false

theorem IsSqueezed.notMem_newline (ht : IsSqueezed t) : '\n' ∉ t := by
  intro hmem
  have hspace := ht.spaces '\n' hmem isBlank_newline
  simp at hspace

theorem spaces_collapse (inRun : Bool) (t : Text) :
    ∀ c ∈ collapse inRun t, isBlank c = true → c = ' ' := by
  induction t generalizing inRun with
  | nil => simp [collapse]
  | cons d t ih =>
    rw [collapse]
    by_cases hd : isBlank d = true
    · cases inRun with
      | true => simpa [hd] using ih true
      | false => simpa [hd] using ih true
    · simpa [hd] using ih false

/-- Behind a blank, a collapsed text does not start with another one. -/
theorem not_isBlank_head?_collapse (t : Text) :
    ∀ c ∈ (collapse true t).head?, isBlank c = false := by
  induction t with
  | nil => simp [collapse]
  | cons d t ih =>
    rw [collapse]
    by_cases hd : isBlank d = true
    · simpa [hd] using ih
    · simp [hd]

/-- No two blanks are left next to each other. -/
theorem single_collapse (inRun : Bool) (t : Text) :
    (collapse inRun t).IsChain fun c d => isBlank c = true → isBlank d = false := by
  induction t generalizing inRun with
  | nil => exact .nil
  | cons d t ih =>
    rw [collapse]
    by_cases hd : isBlank d = true
    · cases inRun with
      | true => simpa [hd] using ih true
      | false =>
        rw [if_pos hd, if_neg Bool.false_ne_true]
        exact List.isChain_cons.mpr ⟨fun c hc _ => not_isBlank_head?_collapse t c hc, ih true⟩
    · rw [if_neg hd]
      exact List.isChain_cons.mpr ⟨fun _ _ hblank => absurd hblank hd, ih false⟩

/-- Squeezing leaves single spaces between words and nothing at the ends. -/
theorem isSqueezed_squeeze (t : Text) : IsSqueezed (squeeze t) := by
  obtain ⟨rest, hrest⟩ : trimEnd (collapse true t) <+: collapse true t :=
    dropEndWhile_prefixOf isBlank _
  have hspaces := spaces_collapse true t
  have hsingle := single_collapse true t
  rw [← hrest] at hspaces hsingle
  rw [squeeze_eq_trimEnd]
  exact {
    spaces := fun c hc => hspaces c (List.mem_append_left rest hc)
    single := hsingle.left_of_append
    start := fun c hc => not_isBlank_head?_collapse t c (head?_trimEnd hc)
    stop := not_isBlank_getLast?_trimEnd _ }

/-- Single spaces are not collapsed any further. -/
theorem collapse_eq_self (hspaces : ∀ c ∈ t, isBlank c = true → c = ' ')
    (hsingle : t.IsChain fun c d => isBlank c = true → isBlank d = false)
    (hstart : inRun = true → ∀ c ∈ t.head?, isBlank c = false) : collapse inRun t = t := by
  induction t generalizing inRun with
  | nil => rfl
  | cons c t ih =>
    obtain ⟨hc, ht⟩ := List.forall_mem_cons.mp hspaces
    obtain ⟨hnext, hsingle⟩ := List.isChain_cons.mp hsingle
    rw [collapse]
    by_cases hblank : isBlank c = true
    · have hrun : ¬inRun = true := by
        intro hrun
        have hvisible := hstart hrun c rfl
        rw [hblank] at hvisible
        cases hvisible
      rw [if_pos hblank, if_neg hrun, ih ht hsingle fun _ d hd => hnext d hd hblank, hc hblank]
    · rw [if_neg hblank, ih ht hsingle (by simp)]

theorem IsSqueezed.squeeze_eq (ht : IsSqueezed t) : squeeze t = t := by
  rw [squeeze_eq_trimEnd, collapse_eq_self ht.spaces ht.single fun _ => ht.start]
  exact dropEndWhile_eq_self_iff.mpr ht.stop

/-- Squeezed texts are those that `squeeze` leaves as they are. -/
theorem squeeze_eq_self_iff : squeeze t = t ↔ IsSqueezed t :=
  ⟨fun h => h ▸ isSqueezed_squeeze t, IsSqueezed.squeeze_eq⟩

/-- Squeezing twice is squeezing once. -/
theorem squeeze_squeeze (t : Text) : squeeze (squeeze t) = squeeze t :=
  (isSqueezed_squeeze t).squeeze_eq

end StyleGuide.Text
