import StyleGuide.Comment.Marker
import StyleGuide.Proofs.Text.Pieces
import StyleGuide.Proofs.Text.Trimming

/-!
# Lines and their markers

A line in which a marker is not found is neither opened nor closed by it and loses nothing when
markers are stripped. Parentheses are counted part by part.
-/

namespace StyleGuide.Comment

open Text

/-! ### Decoration -/

/-- A text without stars has no decoration but blanks. -/
theorem dropWhile_isDecoration {t : Text} (ht : '*' ∉ t) :
    t.dropWhile isDecoration = trimStart t := by
  unfold trimStart
  induction t with
  | nil => rfl
  | cons c t ih =>
    rw [List.mem_cons, not_or] at ht
    have hc : isDecoration c = isBlank c := by simp [isDecoration, Ne.symm ht.1]
    rw [List.dropWhile_cons, List.dropWhile_cons, hc, ih ht.2]

/-- Without stars there is no decoration but blanks. -/
theorem normalize_eq_trim {t : Text} (ht : '*' ∉ t) : normalize t = trim t := by
  rw [normalize, dropWhile_isDecoration ht]
  rfl

/-- A text is its normal form between decoration and blanks. -/
theorem exists_append_normalize (t : Text) : ∃ lead tail,
    t = lead ++ (Comment.normalize t ++ tail) ∧
    (∀ c ∈ lead, isDecoration c = true) ∧ ∀ c ∈ tail, isBlank c = true := by
  obtain ⟨tail, htail, hblank⟩ := exists_dropEndWhile_append isBlank (t.dropWhile isDecoration)
  refine ⟨t.takeWhile isDecoration, tail, ?_, List.all_eq_true.mp List.all_takeWhile, hblank⟩
  conv => lhs; rw [← List.takeWhile_append_dropWhile (p := isDecoration) (l := t), htail]
  rfl

/-! ### Markers -/

/-- A line without markers is left as it is. -/
theorem stripMarkers_of_lacks {line : Text} (hopen : ¬['/', '*'] <:+: line)
    (hclose : ¬['*', '/'] <:+: line) : stripMarkers line = line := by
  simp [stripMarkers, cut?_eq_none_iff.mpr hopen, eraseFirst, cut_of_lacks hclose]

theorem not_isSome_afterMarker? {marker line : Text} (h : ¬marker <:+: line) :
    (afterMarker? marker line).isSome = false := by
  unfold afterMarker?
  dsimp only
  split
  · next hmarker =>
    exfalso
    rw [List.isPrefixOf_iff_prefix] at hmarker
    exact h (hmarker.isInfix.trans (List.dropWhile_suffix isBlank).isInfix)
  · rfl

theorem parenBalance_append (t u : Text) :
    parenBalance (t ++ u) = parenBalance t + parenBalance u := by
  simp only [parenBalance, List.count_append, Int.natCast_add]
  omega

/-- A line comment stays one when more is written behind it. -/
theorem isLineComment_append {t : Text} (ht : isLineComment t = true) (u : Text) :
    isLineComment (t ++ u) = true := by
  unfold isLineComment afterMarker? at ht ⊢
  dsimp only at ht ⊢
  split at ht
  · next hmarker =>
    rw [List.isPrefixOf_iff_prefix] at hmarker
    have hslash : '/' ∈ t := (List.dropWhile_suffix isBlank).subset (hmarker.subset (by simp))
    rw [trimStart_append ⟨'/', hslash, by decide⟩, if_pos]
    · rfl
    · rw [List.isPrefixOf_iff_prefix]
      exact hmarker.trans (List.prefix_append _ _)
  · simp at ht

/-- What is announced before some text that starts with no word is announced with that text. -/
theorem announcesProperty_append {t u : Text} (ht : announcesProperty t = true)
    (hu : u.head?.any isWord = false) : announcesProperty (t ++ u) = true := by
  induction t with
  | nil => simp [announcesProperty] at ht
  | cons c t ih =>
    rw [announcesProperty, Bool.or_eq_true, Bool.and_eq_true, List.isPrefixOf_iff_prefix] at ht
    rw [List.cons_append, announcesProperty, Bool.or_eq_true, Bool.and_eq_true,
      List.isPrefixOf_iff_prefix]
    rcases ht with ⟨htag, hend⟩ | ht
    · refine .inl ⟨htag.trans (List.prefix_append _ _), ?_⟩
      rw [← List.cons_append, List.drop_append_of_le_length htag.length_le, List.head?_append]
      cases hdrop : ((c :: t).drop propertyTag.length).head? with
      | none => simpa using hu
      | some d => simpa [hdrop] using hend
    · exact .inr (ih ht)

/-- What has no tag does not hide one behind it. -/
theorem announcesProperty_append_left {p : Text} (hp : '@' ∉ p) (t : Text) :
    announcesProperty (p ++ t) = announcesProperty t := by
  induction p with
  | nil => rfl
  | cons c p ih =>
    rw [List.mem_cons, not_or] at hp
    have hprefix : propertyTag.isPrefixOf (c :: (p ++ t)) = false := by
      rw [Bool.eq_false_iff, Ne, List.isPrefixOf_iff_prefix]
      intro h
      exact hp.1 (List.cons_prefix_cons.mp (show '@' :: ['p', 'r', 'o', 'p'] <+: _ from h)).1
    rw [List.cons_append, announcesProperty, hprefix, Bool.false_and, Bool.false_or, ih hp.2]

theorem announcesProperty_append_right {t : Text} (ht : announcesProperty t = true) (p : Text) :
    announcesProperty (p ++ t) = true := by
  induction p with
  | nil => exact ht
  | cons c p ih => rw [List.cons_append, announcesProperty, ih, Bool.or_true]

/-- A line that announces nothing announces nothing before its closing marker. -/
theorem not_announcesProperty_cut {line : Text} (hline : announcesProperty line = false) :
    announcesProperty (cut ['*', '/'] line).1 = false := by
  rcases cut_cases ['*', '/'] line with hcut | hcut
  · rw [hcut]
    exact hline
  · rw [Bool.eq_false_iff]
    intro hbefore
    have hstar : isWord '*' = false := by decide
    have hall := announcesProperty_append (u := ['*', '/'] ++ (cut ['*', '/'] line).2) hbefore
      (by simp [hstar])
    rw [← List.append_assoc, ← hcut, hline] at hall
    exact Bool.false_ne_true hall

theorem lineCommentText_infixOf (line : Text) : lineCommentText line <:+: line := by
  unfold lineCommentText afterMarker?
  dsimp only
  split
  · exact (List.drop_suffix _ _).isInfix.trans (List.dropWhile_suffix isBlank).isInfix
  · exact List.infix_rfl

end StyleGuide.Comment
