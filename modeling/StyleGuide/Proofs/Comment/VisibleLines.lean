import StyleGuide.Proofs.Comment.Markers
import StyleGuide.Proofs.Tag.Standard
import StyleGuide.Proofs.Text.Words

/-!
# The visible lines of a comment

Of the lines of a comment only those count that have more than decoration, and of these the blanks
at their ends do not count. What is left are the visible lines. Normalizing a comment takes the
decoration from the first visible line and changes nothing else (`visible_normalize`), and the tags
of a block can be read from its visible lines alone (`tags_eq_visible`).
-/

namespace StyleGuide

open Text Comment

variable {l t : Text}

/-! ### Lines with blanks behind them -/

theorem isDecoration_of_isBlank {c : Char} (hc : isBlank c = true) : isDecoration c = true := by
  simp [isDecoration, hc]

theorem not_isBlank_of_not_isDecoration {c : Char} (hc : isDecoration c = false) :
    isBlank c = false := by
  rw [isDecoration, Bool.or_eq_false_iff] at hc
  exact hc.1

theorem normalize_append_left {lead : Text} (hlead : ∀ c ∈ lead, isDecoration c = true) (t : Text) :
    Comment.normalize (lead ++ t) = Comment.normalize t := by
  rw [Comment.normalize, List.dropWhile_append_of_pos hlead, Comment.normalize]

theorem normalize_append_right {b : Text} (hb : ∀ c ∈ b, isBlank c = true) (t : Text) :
    Comment.normalize (t ++ b) = Comment.normalize t := by
  unfold Comment.normalize
  rw [List.dropWhile_append]
  split
  · next h =>
    rw [List.isEmpty_iff] at h
    have hnil : b.dropWhile isDecoration = [] :=
      List.dropWhile_eq_nil_iff.mpr fun c hc => isDecoration_of_isBlank (hb c hc)
    rw [h, hnil]
  · exact dropEndWhile_append_of_all hb

/-- Nothing is left exactly of decoration. -/
theorem normalize_eq_nil_iff : Comment.normalize t = [] ↔ ∀ c ∈ t, isDecoration c = true := by
  constructor
  · intro h c hc
    have hblank := dropEndWhile_eq_nil_iff.mp h
    rw [← List.takeWhile_append_dropWhile (p := isDecoration) (l := t), List.mem_append] at hc
    rcases hc with hc | hc
    · exact List.all_eq_true.mp List.all_takeWhile c hc
    · exact isDecoration_of_isBlank (hblank c hc)
  · intro h
    rw [Comment.normalize, List.dropWhile_eq_nil_iff.mpr h]
    rfl

theorem trimEnd_append_right {b : Text} (hb : ∀ c ∈ b, isBlank c = true) (t : Text) :
    trimEnd (t ++ b) = trimEnd t :=
  dropEndWhile_append_of_all hb

theorem normalize_trimEnd (l : Text) : Comment.normalize (trimEnd l) = Comment.normalize l := by
  obtain ⟨b, hl, hb⟩ := exists_dropEndWhile_append isBlank l
  conv => rhs; rw [hl]
  exact (normalize_append_right hb _).symm

/-! ### Visible lines -/

def visible? (l : Text) : Option Text := if isShown l then some (trimEnd l) else none

/-- The lines of a text that have more than decoration, without blanks at their ends. -/
def visible (t : Text) : List Text := (lines t).filterMap visible?

def undecorated : List Text → List Text
  | [] => []
  | l :: ls => l.dropWhile isDecoration :: ls

theorem visible?_of_decoration (hl : ∀ c ∈ l, isDecoration c = true) : visible? l = none := by
  rw [visible?, isShown, normalize_eq_nil_iff.mpr hl]
  rfl

theorem visible?_append_right {b : Text} (hb : ∀ c ∈ b, isBlank c = true) (l : Text) :
    visible? (l ++ b) = visible? l := by
  rw [visible?, visible?, isShown, isShown, normalize_append_right hb, trimEnd_append_right hb]

/-- The visible lines are the lines with more than decoration, trimmed at their ends. -/
theorem visible_eq_map (t : Text) : visible t = ((lines t).filter isShown).map trimEnd := by
  rw [visible, ← List.filterMap_eq_map, ← List.filterMap_eq_filter, List.filterMap_filterMap]
  congr 1
  funext l
  by_cases hl : isShown l = true <;> simp [visible?, hl, Option.guard]

theorem visible_unlines {ls : List Text} (hls : ∀ l ∈ ls, '\n' ∉ l) :
    visible (unlines ls) = ls.filterMap visible? := by
  cases ls with
  | nil => rfl
  | cons l ls => rw [visible, lines_unlines (by simp) hls]

/-- Where two texts meet, the last line of the one and the first line of the other become one
line. -/
theorem exists_lines_append (t u : Text) : ∃ init last first rest,
    lines t = init ++ [last] ∧ lines u = first :: rest ∧
      lines (t ++ u) = init ++ (last ++ first) :: rest := by
  unfold lines
  obtain ⟨first, rest, hu⟩ := List.exists_cons_of_ne_nil (splitAt_ne_nil '\n' u)
  induction t with
  | nil => exact ⟨[], [], first, rest, rfl, hu, by simpa using hu⟩
  | cons c t ih =>
    obtain ⟨init, last, first, rest, ht, hu, htu⟩ := ih
    rw [List.cons_append, splitAt, splitAt, htu, ht]
    by_cases hc : c = '\n'
    · exact ⟨[] :: init, last, first, rest, by simp [hc], hu, by simp [hc]⟩
    · rw [if_neg hc, if_neg hc]
      cases init with
      | nil => exact ⟨[], c :: last, first, rest, rfl, hu, rfl⟩
      | cons l init => exact ⟨(c :: l) :: init, last, first, rest, rfl, hu, rfl⟩

theorem forall_of_mem_lines {p : Char → Prop} (ht : ∀ c ∈ t, p c) (hl : l ∈ lines t) :
    ∀ c ∈ l, p c :=
  fun c hc => ht c ((infix_of_mem_splitAt hl).subset hc)

theorem filterMap_visible?_of_decoration {ls : List Text}
    (hls : ∀ l ∈ ls, ∀ c ∈ l, isDecoration c = true) : ls.filterMap visible? = [] := by
  rw [List.filterMap_eq_nil_iff]
  intro l hl
  exact visible?_of_decoration (hls l hl)

/-- Blanks at the end of a text are not seen, even if they have newlines. -/
theorem visible_append_right {b : Text} (hb : ∀ c ∈ b, isBlank c = true) (t : Text) :
    visible (t ++ b) = visible t := by
  obtain ⟨init, last, first, rest, ht, hlines, hall⟩ := exists_lines_append t b
  have hfirst : ∀ c ∈ first, isBlank c = true := forall_of_mem_lines hb (by simp [hlines])
  have hrest : rest.filterMap visible? = [] := by
    apply filterMap_visible?_of_decoration
    intro l hl c hc
    exact isDecoration_of_isBlank (forall_of_mem_lines hb (by simp [hlines, hl]) c hc)
  rw [visible, visible, hall, ht, List.filterMap_append, List.filterMap_append, List.filterMap_cons,
    List.filterMap_cons, visible?_append_right hfirst, hrest, List.filterMap_nil]

/-- A line is visible from its first character on that is no decoration. -/
theorem visible?_append_cons {lead v : Text} {c : Char} (hlead : ∀ c ∈ lead, isDecoration c = true)
    (hc : isDecoration c = false) : visible? (lead ++ c :: v) = some (lead ++ c :: trimEnd v) := by
  have hblank := not_isBlank_of_not_isDecoration hc
  have hshown : isShown (lead ++ c :: v) = true := by
    rw [isShown, normalize_append_left hlead, Bool.not_eq_true', List.isEmpty_eq_false_iff, Ne,
      normalize_eq_nil_iff]
    intro h
    rw [h c List.mem_cons_self] at hc
    cases hc
  rw [visible?, if_pos hshown, trimEnd_append ⟨c, List.mem_cons_self, hblank⟩, trimEnd_cons hblank]

theorem exists_lines_cons {c : Char} (hc : c ≠ '\n') (t : Text) :
    ∃ v rest, lines (c :: t) = (c :: v) :: rest := by
  obtain ⟨first, rest, ht⟩ := List.exists_cons_of_ne_nil (splitAt_ne_nil '\n' t)
  exact ⟨first, rest, by rw [lines, splitAt, if_neg hc, ht]⟩

/-- Decoration at the start of a text, over several lines or in one, is not seen. -/
theorem visible_dropWhile (t : Text) :
    visible (t.dropWhile isDecoration) = undecorated (visible t) := by
  have hlead : ∀ c ∈ t.takeWhile isDecoration, isDecoration c = true :=
    List.all_eq_true.mp List.all_takeWhile
  have htext : t.takeWhile isDecoration ++ t.dropWhile isDecoration = t :=
    List.takeWhile_append_dropWhile
  obtain ⟨init, last, first, rest, hl, hr, hall⟩ :=
    exists_lines_append (t.takeWhile isDecoration) (t.dropWhile isDecoration)
  rw [htext] at hall
  -- The lines of the decoration are not visible; its last one stands before the first line of the
  -- rest.
  have hinit : init.filterMap visible? = [] := by
    apply filterMap_visible?_of_decoration
    intro l hmem
    exact forall_of_mem_lines hlead (by simp [hl, hmem])
  have hlast : ∀ c ∈ last, isDecoration c = true := forall_of_mem_lines hlead (by simp [hl])
  rw [visible, visible, hr, hall, List.filterMap_append, hinit, List.nil_append,
    List.filterMap_cons, List.filterMap_cons]
  cases hdrop : t.dropWhile isDecoration with
  | nil =>
    rw [hdrop] at hr
    obtain ⟨rfl, rfl⟩ := List.cons.inj (show [([] : Text)] = first :: rest from hr)
    rw [List.append_nil, visible?_of_decoration hlast, visible?_of_decoration (l := []) (by simp)]
    rfl
  | cons c u =>
    have hc : isDecoration c = false := by
      have h := List.head?_dropWhile_not isDecoration t
      rw [hdrop] at h
      simpa using h
    have hnewline : c ≠ '\n' := by
      rintro rfl
      cases hc
    obtain ⟨v, more, hlines⟩ := exists_lines_cons hnewline u
    rw [hdrop, hlines] at hr
    obtain rfl := (List.cons.inj hr).1
    have hfirst : visible? ([] ++ c :: v) = some ([] ++ c :: trimEnd v) :=
      visible?_append_cons (by simp) hc
    rw [List.nil_append, List.nil_append] at hfirst
    rw [visible?_append_cons hlast hc, hfirst]
    show _ = (last ++ c :: trimEnd v).dropWhile isDecoration :: _
    rw [List.dropWhile_append_of_pos hlast, List.dropWhile_cons_of_neg (by simp [hc])]

/-- A comment that is normalized loses the decoration of its first visible line. -/
theorem visible_normalize (t : Text) : visible (Comment.normalize t) = undecorated (visible t) := by
  obtain ⟨b, ht, hb⟩ := exists_dropEndWhile_append isBlank (t.dropWhile isDecoration)
  rw [← visible_dropWhile]
  conv => rhs; rw [ht]
  exact (visible_append_right hb _).symm

theorem exists_normalize_of_mem_undecorated {x : Text} {us : List Text} (hx : x ∈ undecorated us) :
    ∃ u ∈ us, Comment.normalize x = Comment.normalize u := by
  cases us with
  | nil => cases hx
  | cons u us =>
    rcases List.mem_cons.mp hx with rfl | hx
    · refine ⟨u, List.mem_cons_self, ?_⟩
      conv => rhs; rw [← List.takeWhile_append_dropWhile (p := isDecoration) (l := u)]
      exact (normalize_append_left (List.all_eq_true.mp List.all_takeWhile) _).symm
    · exact ⟨x, List.mem_cons_of_mem u hx, rfl⟩

/-! ### Tags -/

/-- The name of a tag does not depend on decoration. -/
theorem nameOf_congr {l l' : Text} (h : Comment.normalize l = Comment.normalize l') :
    Tag.nameOf l = Tag.nameOf l' := by
  rw [Tag.nameOf, Tag.nameOf, h]

theorem startsTag_congr {l l' : Text} (h : Comment.normalize l = Comment.normalize l') :
    Tag.startsTag l = Tag.startsTag l' := by
  rw [Tag.startsTag, Tag.startsTag, h]

theorem not_isBlank_of_mem_nameOf {c : Char} (hc : c ∈ Tag.nameOf l) : isBlank c = false := by
  have h := List.all_eq_true.mp (List.all_takeWhile (p := fun c => !isBlank c)) c hc
  simpa using h

theorem notMem_marker_of_isBlank {c : Char} (hc : isBlank c = true) : c ∉ '@' :: Tag.nameOf l := by
  rw [List.mem_cons, not_or]
  constructor
  · rintro rfl
    revert hc
    decide
  · intro hmem
    rw [not_isBlank_of_mem_nameOf hmem] at hc
    cases hc

def behindSpace : Text → Text
  | ' ' :: rest => rest
  | rest => rest

theorem behindSpace_cons {c : Char} (hc : c ≠ ' ') (t : Text) : behindSpace (c :: t) = c :: t := by
  unfold behindSpace
  split
  · next h => exact absurd (List.cons.inj h).1 hc
  · rfl

theorem trimEnd_behindSpace_append {b : Text} (hb : ∀ c ∈ b, isBlank c = true) (t : Text) :
    trimEnd (behindSpace (t ++ b)) = trimEnd (behindSpace t) := by
  cases t with
  | nil =>
    have hbehind : ∀ c ∈ behindSpace b, isBlank c = true := by
      unfold behindSpace
      split
      · exact fun c hc => hb c (List.mem_cons_of_mem _ hc)
      · exact hb
    exact dropEndWhile_eq_nil_iff.mpr hbehind
  | cons c t =>
    by_cases hc : c = ' '
    · subst hc
      exact trimEnd_append_right hb t
    · rw [List.cons_append, behindSpace_cons hc, behindSpace_cons hc, ← List.cons_append]
      exact trimEnd_append_right hb _

/-- A line loses its first star and what stands before it, unless that is too much. -/
theorem stripStar_append_cons {p : Text} (hp : '*' ∉ p) (q : Text) :
    Tag.stripStar (p ++ '*' :: q) =
      if p.length < Tag.starWindow then behindSpace q else p ++ '*' :: q := by
  have hbefore : (p ++ '*' :: q).takeWhile (· ≠ '*') = p := by
    rw [List.takeWhile_append_of_pos, List.takeWhile_cons_of_neg (by simp), List.append_nil]
    intro c hc
    rw [decide_eq_true_eq]
    rintro rfl
    exact hp hc
  have hdrop : (p ++ '*' :: q).drop (p.length + 1) = q := by
    rw [List.append_cons, List.drop_left' (by simp)]
  unfold Tag.stripStar
  dsimp only
  rw [hbefore, hdrop]
  by_cases hlen : p.length < Tag.starWindow
  · rw [if_pos ⟨by simp, hlen⟩, if_pos hlen]
    rfl
  · rw [if_neg fun h => hlen h.2, if_neg hlen]

/-- Blanks behind a line are blanks behind what is left of it. -/
theorem trimEnd_stripStar_append {b : Text} (hb : ∀ c ∈ b, isBlank c = true) (t : Text) :
    trimEnd (Tag.stripStar (t ++ b)) = trimEnd (Tag.stripStar t) := by
  by_cases ht : '*' ∈ t
  · obtain ⟨p, q, rfl, hp⟩ := List.eq_append_cons_of_mem ht
    rw [List.append_assoc, List.cons_append, stripStar_append_cons hp, stripStar_append_cons hp]
    split
    · exact trimEnd_behindSpace_append hb q
    · rw [← List.cons_append, ← List.append_assoc]
      exact trimEnd_append_right hb _
  · have hstar : '*' ∉ t ++ b := by
      rw [List.mem_append, not_or]
      exact ⟨ht, fun h => absurd (hb '*' h) (by decide)⟩
    rw [stripStar_of_notMem ht, stripStar_of_notMem hstar, trimEnd_append_right hb]

theorem nextText_trimEnd (l : Text) : Tag.nextText (trimEnd l) = Tag.nextText l := by
  obtain ⟨b, hl, hb⟩ := exists_dropEndWhile_append isBlank l
  conv => rhs; rw [hl]
  exact (trimEnd_stripStar_append hb _).symm

theorem firstText_trimEnd {marker : Text} (hmarker : marker ≠ [])
    (hblank : ∀ c, isBlank c = true → c ∉ marker) (l : Text) :
    Tag.firstText marker (trimEnd l) = Tag.firstText marker l := by
  obtain ⟨b, hl, hb⟩ := exists_dropEndWhile_append isBlank l
  have htrim : ∀ t : Text, trim t = trim (trimEnd t) :=
    fun t => (trim_dropEndWhile (fun _ hc => hc) t).symm
  conv => rhs; rw [hl]
  rw [Tag.firstText, Tag.firstText, eraseFirst_append_right hmarker fun c hc => hblank c (hb c hc),
    htrim (Tag.stripStar (_ ++ b)), trimEnd_stripStar_append hb, ← htrim]
  rfl

/-- A tag is read the same from lines that are trimmed at their ends. -/
theorem known?_trimEnd (i : Nat) (l : Text) (below : List Text) :
    Tag.known? i (trimEnd l) (below.map trimEnd) = Tag.known? i l below := by
  have hname : Tag.nameOf (trimEnd l) = Tag.nameOf l := nameOf_congr (normalize_trimEnd l)
  have hstarts : (fun l => !Tag.startsTag l) ∘ trimEnd = fun l => !Tag.startsTag l :=
    funext fun l => congrArg not (startsTag_congr (normalize_trimEnd l))
  have hnext : Tag.nextText ∘ trimEnd = Tag.nextText := funext nextText_trimEnd
  have hfirst : Tag.firstText ('@' :: Tag.nameOf l) (trimEnd l) =
      Tag.firstText ('@' :: Tag.nameOf l) l :=
    firstText_trimEnd (by simp) (fun c hc => notMem_marker_of_isBlank hc) l
  rw [Tag.known?, Tag.known?, Tag.read?, Tag.read?, hname]
  dsimp only
  rw [List.takeWhile_map, hstarts, Tag.contentOf, Tag.contentOf, hfirst, List.map_map, hnext,
    List.length_map]

theorem forLines_known?_trimEnd (i : Nat) (ls : List Text) :
    TagReader.forLines (fun i line below => (Tag.known? i line below).toList) i (ls.map trimEnd) =
      TagReader.forLines (fun i line below => (Tag.known? i line below).toList) i ls := by
  induction ls generalizing i with
  | nil => rfl
  | cons l ls ih =>
    rw [List.map_cons, TagReader.forLines, TagReader.forLines, known?_trimEnd, ih]

/-- The tags of a block can be read from its visible lines. -/
theorem tags_eq_visible (block : CommentBlock) : block.tags =
    TagReader.forLines (fun i line below => (Tag.known? i line below).toList) 0
      (visible block.text) := by
  rw [visible_eq_map, forLines_known?_trimEnd]
  rfl

end StyleGuide
