import StyleGuide.Text.Basic

/-!
# Where a piece of a text is found

A piece is found in a text exactly if it is an infix of the text. A character that the piece lacks
keeps its occurrences apart: they stand before the character or behind it. A piece that does not
overlap itself is found again where it was put between texts that lack it, so that splitting takes
apart what joining has put together.
-/

namespace StyleGuide.Text

variable {piece p q t : Text} {c : Char}

/-! ### Infixes -/

/-- A text cannot be cut exactly if it lacks the piece. -/
theorem cut?_eq_none_iff : cut? piece t = none ↔ ¬piece <:+: t := by
  induction t with
  | nil => cases piece <;> simp [cut?]
  | cons c cs ih =>
    rw [List.infix_cons_iff, ← List.isPrefixOf_iff_prefix, cut?]
    split
    · next h => simp [h]
    · next h => simp [h, ih]

theorem has_iff : has piece t = true ↔ piece <:+: t := by
  rw [has, Option.isSome_iff_ne_none, Ne, cut?_eq_none_iff, Classical.not_not]

theorem cut_of_lacks (h : ¬piece <:+: t) : cut piece t = (t, []) := by
  rw [cut, cut?_eq_none_iff.mpr h, Option.getD_none]

/-- What is cut is put together again by the piece, if the piece was there. -/
theorem cut_cases (piece t : Text) :
    cut piece t = (t, []) ∨ t = (cut piece t).1 ++ piece ++ (cut piece t).2 := by
  cases h : cut? piece t with
  | none => exact .inl (by rw [cut, h, Option.getD_none])
  | some parts => exact .inr (by rw [cut, h, Option.getD_some]; exact eq_append_of_cut? h)

/-- The occurrences of a piece stand before or behind a character that the piece lacks. -/
theorem infix_append_cons_iff (hc : c ∉ piece) :
    piece <:+: p ++ c :: q ↔ piece <:+: p ∨ piece <:+: q := by
  constructor
  · intro h
    rcases List.infix_append_iff.mp h with h | h | ⟨u, v, rfl, hu, hv⟩
    · exact .inl h
    · rcases List.infix_cons_iff.mp h with h | h
      · -- A prefix of `c :: q` without `c` is empty.
        cases piece with
        | nil => exact .inl List.nil_infix
        | cons d piece =>
          obtain rfl := (List.cons_prefix_cons.mp h).1
          simp at hc
      · exact .inr h
    · cases v with
      | nil => exact .inl (by simpa using hu.isInfix)
      | cons d v =>
        obtain rfl := (List.cons_prefix_cons.mp hv).1
        simp at hc
  · rintro (h | h)
    · exact List.infix_append_of_infix_left h
    · exact List.infix_append_of_infix_right (List.infix_cons h)

/-- A character that the piece does not have is no part of an occurrence. -/
theorem infix_cons_iff_of_notMem (hc : c ∉ piece) (hpiece : piece ≠ []) :
    piece <:+: c :: q ↔ piece <:+: q := by
  have h := infix_append_cons_iff (p := []) (q := q) hc
  simpa [hpiece] using h

/-! ### Finding a piece again -/

/-- The piece is found where it stands unless it is also found further ahead. -/
theorem cut?_append (h : ∀ v, v ≠ [] → v <:+ p → ¬piece <+: v ++ (piece ++ q)) :
    cut? piece (p ++ (piece ++ q)) = some (p, q) := by
  induction p with
  | nil =>
    cases hpq : piece ++ q with
    | nil => simp_all [cut?]
    | cons d r =>
      have hprefix : piece.isPrefixOf (d :: r) = true := by
        rw [← hpq, List.isPrefixOf_iff_prefix]
        exact List.prefix_append piece q
      rw [List.nil_append, cut?, if_pos hprefix, ← hpq, List.drop_left]
  | cons d p ih =>
    have hprefix : ¬piece.isPrefixOf (d :: (p ++ (piece ++ q))) = true := by
      rw [List.isPrefixOf_iff_prefix]
      exact h (d :: p) (by simp) List.suffix_rfl
    rw [List.cons_append, cut?, if_neg hprefix]
    rw [ih fun v hv hs => h v hv (hs.trans (List.suffix_cons d p))]
    rfl

/-- A piece that has a character which the text before it lacks. -/
theorem cut?_append_of_notMem {a b : Text} (hp : c ∉ p) (ha : c ∉ a) :
    cut? (a ++ c :: b) (p ++ ((a ++ c :: b) ++ q)) = some (p, q) := by
  apply cut?_append
  intro v hv hs hprefix
  obtain ⟨r, hr⟩ := hprefix
  have hva : c ∉ v ++ a := by
    rw [List.mem_append]
    rintro (h | h)
    · exact hp (hs.subset h)
    · exact ha h
  -- Both sides have their first `c` behind `a` and behind `v ++ a`.
  have hlen : (a ++ c :: (b ++ r)).idxOf c = ((v ++ a) ++ c :: (b ++ q)).idxOf c := by
    simpa using congrArg (List.idxOf c) hr
  rw [List.idxOf_append, if_neg ha, List.idxOf_append, if_neg hva] at hlen
  have hpos := List.length_pos_iff.mpr hv
  simp only [List.idxOf_cons_self, List.length_append] at hlen
  omega

/-- No start of the piece is also its end. -/
def Unbordered (piece : Text) : Prop :=
  ∀ n < piece.length, 0 < n → piece.take n ≠ piece.drop (piece.length - n)

instance (piece : Text) : Decidable (Unbordered piece) :=
  inferInstanceAs (Decidable (∀ n < piece.length, 0 < n → _))

/-- A piece that does not overlap itself, behind a text that lacks it. -/
theorem cut?_append_of_unbordered (hpiece : Unbordered piece) (hp : ¬piece <:+: p) :
    cut? piece (p ++ (piece ++ q)) = some (p, q) := by
  apply cut?_append
  intro v hv hs hprefix
  have hpos := List.length_pos_iff.mpr hv
  rcases Nat.lt_or_ge v.length piece.length with hlt | hge
  · -- The rest of the piece behind `v` would be an end and a start of it.
    have htake : piece = (v ++ (piece ++ q)).take piece.length := List.prefix_iff_eq_take.mp hprefix
    rw [List.take_append, List.take_of_length_le (Nat.le_of_lt hlt),
      List.take_append_of_le_length (Nat.sub_le _ _)] at htake
    refine hpiece (piece.length - v.length) (by omega) (by omega) ?_
    rw [Nat.sub_sub_self (Nat.le_of_lt hlt)]
    calc piece.take (piece.length - v.length)
        = (v ++ piece.take (piece.length - v.length)).drop v.length := by rw [List.drop_left]
      _ = piece.drop v.length := by rw [← htake]
  · have hpv : piece <+: v :=
      List.prefix_of_prefix_length_le hprefix (List.prefix_append v _) hge
    exact hp (hpv.isInfix.trans hs.isInfix)

/-! ### Splitting what was joined -/

theorem splitOn_of_lacks (ht : ¬piece <:+: t) : splitOn piece t = [t] := by
  rw [splitOn]
  split
  · rfl
  · split
    · rfl
    · next h => simp [cut?_eq_none_iff.mpr ht] at h

/-- Splitting goes on behind the first cut. -/
theorem splitOn_of_cut? (hpiece : piece ≠ []) (h : cut? piece t = some (p, q)) :
    splitOn piece t = p :: splitOn piece q := by
  rw [splitOn, dif_neg hpiece]
  split
  · next h' => simp [h] at h'
  · next h' =>
    rw [h, Option.some.injEq, Prod.mk.injEq] at h'
    rw [h'.1, h'.2]

theorem splitAt_of_notMem (ht : c ∉ t) : splitAt c t = [t] := by
  induction t with
  | nil => rfl
  | cons d t ih =>
    rw [List.mem_cons, not_or] at ht
    rw [splitAt, if_neg (Ne.symm ht.1), ih ht.2]

/-- Two texts with the character between them have the pieces of both. -/
theorem splitAt_append (p q : Text) : splitAt c (p ++ c :: q) = splitAt c p ++ splitAt c q := by
  induction p with
  | nil => simp [splitAt]
  | cons d p ih =>
    rw [List.cons_append, splitAt, splitAt, ih]
    split
    · rfl
    · obtain ⟨first, more, hsplit⟩ := List.exists_cons_of_ne_nil (splitAt_ne_nil c p)
      rw [hsplit]
      rfl

/-- The first piece ends at the first separator. -/
theorem splitAt_append_cons (hp : c ∉ p) : splitAt c (p ++ c :: q) = p :: splitAt c q := by
  rw [splitAt_append, splitAt_of_notMem hp, List.singleton_append]

/-- Pieces without the character are the pieces of their text. -/
theorem splitAt_join {ps : List Text} (hps : ps ≠ []) (h : ∀ p ∈ ps, c ∉ p) :
    splitAt c (join [c] ps) = ps := by
  induction ps with
  | nil => exact absurd rfl hps
  | cons p ps ih =>
    obtain ⟨hp, hrest⟩ := List.forall_mem_cons.mp h
    cases ps with
    | nil => exact splitAt_of_notMem hp
    | cons q ps =>
      rw [join, List.append_assoc, List.singleton_append, splitAt_append_cons hp,
        ih (by simp) hrest]

/-- Lines without newlines are the lines of their text. -/
theorem lines_unlines {ls : List Text} (hls : ls ≠ []) (h : ∀ l ∈ ls, '\n' ∉ l) :
    lines (unlines ls) = ls :=
  splitAt_join hls h

theorem unlines_cons (t : Text) (ts : List Text) :
    unlines (t :: ts) = t ++ ts.flatMap ('\n' :: ·) := by
  unfold unlines
  induction ts generalizing t with
  | nil => simp [join]
  | cons u ts ih => simp [join, ih]

/-- No line has a newline. -/
theorem notMem_of_mem_splitAt {l : Text} (hl : l ∈ splitAt c t) : c ∉ l := by
  induction t generalizing l with
  | nil =>
    obtain rfl := List.mem_singleton.mp hl
    simp
  | cons d t ih =>
    rw [splitAt] at hl
    split at hl
    · rcases List.mem_cons.mp hl with rfl | hl
      · simp
      · exact ih hl
    · next hd =>
      obtain ⟨first, more, hsplit⟩ := List.exists_cons_of_ne_nil (splitAt_ne_nil c t)
      rw [hsplit] at hl ih
      rcases List.mem_cons.mp hl with rfl | hl
      · rw [List.mem_cons, not_or]
        exact ⟨fun h => hd h.symm, ih List.mem_cons_self⟩
      · exact ih (List.mem_cons_of_mem first hl)

/-- Pieces occur in the text. -/
theorem infix_of_mem_splitAt {l : Text} (hl : l ∈ splitAt c t) : l <:+: t := by
  rw [← join_splitAt c t]
  generalize splitAt c t = ls at hl
  induction ls with
  | nil => simp at hl
  | cons l' ls ih =>
    cases ls with
    | nil =>
      obtain rfl := List.mem_singleton.mp hl
      exact List.infix_rfl
    | cons l'' ls =>
      rcases List.mem_cons.mp hl with rfl | hl
      · exact (List.prefix_append _ _).isInfix.trans (List.prefix_append _ _).isInfix
      · exact (ih hl).trans (List.suffix_append _ _).isInfix

end StyleGuide.Text
