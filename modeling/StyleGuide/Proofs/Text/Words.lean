import StyleGuide.Proofs.Text.Pieces
import StyleGuide.Proofs.Text.Trimming

/-!
# Words in a text

A word is a text without blanks. However the blanks of a text are trimmed or collapsed, the words
that are found in it stay the same, and what is found in the parts of a text is found in the text.
-/

namespace StyleGuide.Text

variable {w p q t : Text} {c : Char}

/-! ### Characters that a word lacks -/

theorem not_infix_of_forall_notMem (hw : w ≠ []) (ht : ∀ c ∈ t, c ∉ w) : ¬w <:+: t := by
  obtain ⟨c, w, rfl⟩ := List.exists_cons_of_ne_nil hw
  intro h
  exact ht c (h.subset List.mem_cons_self) List.mem_cons_self

/-- What shares no character with a word neither has it nor starts it. -/
theorem infix_append_left_iff (hw : w ≠ []) (hp : ∀ c ∈ p, c ∉ w) :
    w <:+: p ++ t ↔ w <:+: t := by
  induction p with
  | nil => rfl
  | cons c p ih =>
    obtain ⟨hc, hrest⟩ := List.forall_mem_cons.mp hp
    rw [List.cons_append, infix_cons_iff_of_notMem hc hw, ih hrest]

theorem infix_append_right_iff (hw : w ≠ []) (hq : ∀ c ∈ q, c ∉ w) :
    w <:+: t ++ q ↔ w <:+: t := by
  cases q with
  | nil => rw [List.append_nil]
  | cons c q =>
    obtain ⟨hc, hrest⟩ := List.forall_mem_cons.mp hq
    rw [infix_append_cons_iff hc]
    exact or_iff_left (not_infix_of_forall_notMem hw hrest)

/-! ### Erasing a word -/

/-- Where a piece is found first does not depend on what follows. -/
theorem cut?_append_right (h : cut? w t = some (p, q)) (u : Text) :
    cut? w (t ++ u) = some (p, q ++ u) := by
  induction t generalizing p with
  | nil =>
    rw [cut?] at h
    split at h
    · next hw =>
      obtain rfl := List.isEmpty_iff.mp hw
      cases h
      cases u <;> rfl
    · cases h
  | cons c t ih =>
    rw [cut?] at h
    rw [List.cons_append, cut?]
    split at h
    · next hw =>
      have hstart := List.isPrefixOf_iff_prefix.mp hw
      cases h
      have hlong : w.isPrefixOf (c :: (t ++ u)) = true :=
        List.isPrefixOf_iff_prefix.mpr (hstart.trans ⟨u, rfl⟩)
      rw [if_pos hlong, ← List.cons_append, List.drop_append_of_le_length hstart.length_le]
    · next hw =>
      obtain ⟨⟨p', q'⟩, hparts, hp⟩ := Option.map_eq_some_iff.mp h
      cases hp
      -- The piece stands in `t` as a whole, so it is too short to reach behind it.
      have hlen : w.length ≤ (c :: t).length := by
        rw [eq_append_of_cut? hparts]
        simp only [List.length_append, List.length_cons]
        omega
      have hshort : ¬w.isPrefixOf (c :: (t ++ u)) = true := by
        intro hlong
        apply hw
        rw [List.isPrefixOf_iff_prefix] at hlong ⊢
        exact List.prefix_of_prefix_length_le hlong ⟨u, rfl⟩ hlen
      rw [if_neg hshort, ih hparts]
      rfl

theorem cut?_append_left (hw : w ≠ []) (hp : ∀ c ∈ p, c ∉ w) (t : Text) :
    cut? w (p ++ t) = (cut? w t).map fun parts => (p ++ parts.1, parts.2) := by
  induction p with
  | nil => cases h : cut? w t <;> simp [h]
  | cons c p ih =>
    obtain ⟨hc, hrest⟩ := List.forall_mem_cons.mp hp
    have hprefix : ¬w.isPrefixOf (c :: (p ++ t)) = true := by
      obtain ⟨d, w, rfl⟩ := List.exists_cons_of_ne_nil hw
      rw [List.isPrefixOf_iff_prefix, List.cons_prefix_cons]
      rintro ⟨rfl, -⟩
      exact hc List.mem_cons_self
    rw [List.cons_append, cut?, if_neg hprefix, ih hrest, Option.map_map]
    rfl

/-- Such a text in front is not touched when the word is erased. -/
theorem eraseFirst_append_left (hw : w ≠ []) (hp : ∀ c ∈ p, c ∉ w) (t : Text) :
    eraseFirst w (p ++ t) = p ++ eraseFirst w t := by
  rw [eraseFirst, eraseFirst, cut, cut, cut?_append_left hw hp]
  cases cut? w t <;> simp

theorem eraseFirst_append_right (hw : w ≠ []) (hq : ∀ c ∈ q, c ∉ w) (t : Text) :
    eraseFirst w (t ++ q) = eraseFirst w t ++ q := by
  cases hcut : cut? w t with
  | none =>
    have hlacks := cut?_eq_none_iff.mp hcut
    have hlong : ¬w <:+: t ++ q := fun h => hlacks ((infix_append_right_iff hw hq).mp h)
    rw [eraseFirst, eraseFirst, cut_of_lacks hlacks, cut_of_lacks hlong]
    simp
  | some parts =>
    rw [eraseFirst, eraseFirst, cut, cut, hcut, cut?_append_right hcut]
    simp

/-! ### Blanks -/

section Blanks

variable (hword : ∀ c ∈ w, isBlank c = false)

include hword

theorem notMem_of_isBlank (hc : isBlank c = true) : c ∉ w := by
  intro h
  rw [hword c h] at hc
  cases hc

theorem infix_trim_iff (hw : w ≠ []) : w <:+: trim t ↔ w <:+: t := by
  obtain ⟨lead, ht, hlead⟩ := exists_append_trimStart t
  obtain ⟨rest, hstart, hrest⟩ := exists_dropEndWhile_append isBlank (trimStart t)
  have hend : w <:+: trimStart t ↔ w <:+: trim t := by
    conv => lhs; rw [hstart]
    exact infix_append_right_iff hw fun c hc => notMem_of_isBlank hword (hrest c hc)
  rw [← hend]
  conv => rhs; rw [ht]
  exact (infix_append_left_iff hw fun c hc => notMem_of_isBlank hword (hlead c hc)).symm

/-- Behind a visible character, a word starts the collapsed text exactly if it starts the text. -/
theorem prefix_collapse_iff : w <+: collapse false t ↔ w <+: t := by
  induction t generalizing w with
  | nil => rw [collapse]
  | cons d t ih =>
    cases w with
    | nil => simp
    | cons c w =>
      obtain ⟨hc, hrest⟩ := List.forall_mem_cons.mp hword
      rw [collapse]
      by_cases hd : isBlank d = true
      · have hcd : c ≠ d := by rintro rfl; rw [hc] at hd; cases hd
        have hcs : c ≠ ' ' := by rintro rfl; simp at hc
        simp [hd, hcd, hcs]
      · rw [if_neg hd, List.cons_prefix_cons, List.cons_prefix_cons, ih hrest]

/-- A word without blanks occurs in a text exactly if it does once blanks are collapsed. -/
theorem infix_collapse_iff (hw : w ≠ []) (inRun : Bool) :
    w <:+: collapse inRun t ↔ w <:+: t := by
  induction t generalizing inRun with
  | nil => rw [collapse]
  | cons d t ih =>
    rw [collapse]
    by_cases hd : isBlank d = true
    · rw [if_pos hd, infix_cons_iff_of_notMem (notMem_of_isBlank hword hd) hw]
      split
      · exact ih true
      · rw [infix_cons_iff_of_notMem (notMem_of_isBlank hword isBlank_space) hw]
        exact ih true
    · rw [if_neg hd, List.infix_cons_iff, List.infix_cons_iff, ih false]
      apply or_congr_left
      -- The visible character itself is the same on both sides.
      have h := prefix_collapse_iff (t := d :: t) hword
      rwa [collapse, if_neg hd] at h

theorem infix_squeeze_iff (hw : w ≠ []) : w <:+: squeeze t ↔ w <:+: t := by
  rw [squeeze, infix_trim_iff hword hw, infix_collapse_iff hword hw]

end Blanks

/-! ### Parts of a text -/

/-- The text before the first occurrence of a piece lacks the piece. -/
theorem not_infix_of_cut? {piece : Text} (hpiece : piece ≠ []) (h : cut? piece t = some (p, q)) :
    ¬piece <:+: p := by
  induction t generalizing p q with
  | nil =>
    have hempty : ¬piece.isEmpty = true := by simpa using hpiece
    rw [cut?, if_neg hempty] at h
    cases h
  | cons c t ih =>
    rw [cut?] at h
    split at h
    · obtain ⟨rfl, -⟩ := Prod.mk.inj (Option.some.inj h)
      simpa using hpiece
    · next hstart =>
      obtain ⟨parts, hparts, hp⟩ := Option.map_eq_some_iff.mp h
      obtain ⟨rfl, -⟩ := Prod.mk.inj hp
      rw [List.infix_cons_iff, not_or]
      refine ⟨fun hbefore => hstart ?_, ih hparts⟩
      rw [List.isPrefixOf_iff_prefix, eq_append_of_cut? hparts, List.append_assoc,
        ← List.cons_append]
      exact hbefore.trans (List.prefix_append _ _)

/-- Pieces occur in the text. -/
theorem infix_of_mem_splitOn {piece : Text} (hp : p ∈ splitOn piece t) : p <:+: t := by
  induction hn : t.length using Nat.strongRecOn generalizing t with
  | ind n ih =>
    by_cases hpiece : piece = []
    · rw [splitOn, dif_pos hpiece, List.mem_singleton] at hp
      exact hp ▸ List.infix_rfl
    · cases hcut : cut? piece t with
      | none =>
        rw [splitOn_of_lacks (cut?_eq_none_iff.mp hcut), List.mem_singleton] at hp
        exact hp ▸ List.infix_rfl
      | some parts =>
        have ht := eq_append_of_cut? hcut
        rw [splitOn_of_cut? hpiece hcut, List.mem_cons] at hp
        rcases hp with rfl | hp
        · exact ⟨[], piece ++ parts.2, by rw [ht]; simp⟩
        · have hlt := length_after_lt hpiece hcut
          have hinfix := ih parts.2.length (hn ▸ hlt) hp rfl
          exact hinfix.trans ⟨parts.1 ++ piece, [], by rw [ht]; simp⟩

end StyleGuide.Text
