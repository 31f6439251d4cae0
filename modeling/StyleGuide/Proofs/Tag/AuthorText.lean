import Mathlib.Data.List.Forall2
import StyleGuide.Proofs.Tag.TagTexts

/-!
# What a tag keeps of its lines

The content of a tag is put together from its lines, one text for each (`Tag.content_of_lines`). A
text is the body of its line if nothing is lost but decoration before it and blanks behind it
(`IsBodyOf`). The first star near the start of a line is taken for decoration wherever it stands,
and with it goes all that stands before it. So a text is the body of its line exactly if no such
star stands behind something else than blanks (`lineText_of_trims`).
-/

namespace StyleGuide

open Text Comment

/-! ### The body of a line -/

/-- The text is the line without some decoration before it and blanks behind it. -/
def IsBodyOf (t l : Text) : Prop :=
  ∃ lead tail, l = lead ++ t ++ tail ∧ (∀ c ∈ lead, isDecoration c = true) ∧ ∀ c ∈ tail,
    isBlank c = true

/-- The first star of the line is one of its first ten characters, and something that is not blank
stands before it. -/
def LosesStart (l : Text) : Prop :=
  ∃ a b, l = a ++ '*' :: b ∧ '*' ∉ a ∧ a.length < 10 ∧ ∃ c ∈ a, isBlank c = false

/-- Decoration at the start of a line is no part of its body. -/
theorem IsBodyOf.append_left {t l : Text} (h : IsBodyOf t l) {lead : Text}
    (hlead : ∀ c ∈ lead, isDecoration c = true) : IsBodyOf t (lead ++ l) := by
  obtain ⟨more, tail, rfl, hmore, htail⟩ := h
  refine ⟨lead ++ more, tail, by simp, ?_, htail⟩
  intro c hc
  exact (List.mem_append.mp hc).elim (hlead c) (hmore c)

/-- Behind its decoration every character of a line belongs to its body, up to the blanks at the
end. -/
theorem lead_eq_of_append_eq {p p' t q q' : Text} (h : p ++ t ++ q = p' ++ t ++ q')
    (hq : ∀ c ∈ q, isBlank c = true) (hq' : ∀ c ∈ q', isBlank c = true) (ht : trimEnd t = t)
    (hne : t ≠ []) : p = p' := by
  have htrim : ∀ p q : Text, (∀ c ∈ q, isBlank c = true) → trimEnd (p ++ t ++ q) = p ++ t := by
    intro p q hq
    rw [trimEnd_append_right hq, trimEnd_append (exists_not_blank ht hne), ht]
  have heq : p ++ t = p' ++ t := by rw [← htrim p q hq, h, htrim p' q' hq']
  exact List.append_cancel_right heq

/-! ### Stripping and trimming -/

/-- The text is the other one without some of the blanks before it and without those behind it. -/
def Trims (s t : Text) : Prop :=
  ∃ lead tail, s = lead ++ t ++ tail ∧ (∀ c ∈ lead, isBlank c = true) ∧
    (∀ c ∈ tail, isBlank c = true) ∧ trimEnd t = t

theorem trims_trimEnd (s : Text) : Trims s (trimEnd s) := by
  obtain ⟨tail, hs, htail⟩ := exists_dropEndWhile_append isBlank s
  exact ⟨[], tail, hs, by simp, htail, trimEnd_dropEndWhile (fun _ hc => hc) s⟩

theorem trims_trim (s : Text) : Trims s (trim s) := by
  obtain ⟨lead, hs, hlead⟩ := exists_append_trimStart s
  obtain ⟨tail, hstart, htail⟩ := exists_dropEndWhile_append isBlank (trimStart s)
  refine ⟨lead, tail, ?_, hlead, htail, trimEnd_dropEndWhile (fun _ hc => hc) _⟩
  rw [List.append_assoc]
  exact hs.trans (congrArg (lead ++ ·) hstart)

theorem Trims.isBodyOf {s t : Text} (h : Trims s t) : IsBodyOf t s := by
  obtain ⟨lead, tail, hs, hlead, htail, -⟩ := h
  exact ⟨lead, tail, hs, fun c hc => isDecoration_of_isBlank (hlead c hc), htail⟩

theorem exists_append_behindSpace (b : Text) :
    ∃ space, b = space ++ behindSpace b ∧ ∀ c ∈ space, isBlank c = true := by
  unfold behindSpace
  split
  · exact ⟨[' '], rfl, by simp⟩
  · exact ⟨[], rfl, by simp⟩

/-- What is kept of a line. It is the body of what stands behind a star near the start of the line,
and it is the body of the line itself exactly if nothing but blanks stands before that star. -/
structure LineText (l t : Text) : Prop where
  behind : ∀ a b, l = a ++ '*' :: b → '*' ∉ a → a.length < 10 → IsBodyOf t b
  isBodyOf_iff : IsBodyOf t l ↔ ¬LosesStart l

section Stars

variable {l t a b : Text}

/-- A star near the start cuts the line behind it, with one space. -/
theorem stripStar_of_star (hl : l = a ++ '*' :: b) (ha : '*' ∉ a) (hlen : a.length < 10) :
    Tag.stripStar l = behindSpace b := by
  rw [hl, stripStar_append_cons ha]
  exact if_pos hlen

theorem isBodyOf_behind_star (h : Trims (Tag.stripStar l) t) (hl : l = a ++ '*' :: b) (ha : '*' ∉ a)
    (hlen : a.length < 10) : IsBodyOf t b := by
  rw [stripStar_of_star hl ha hlen] at h
  obtain ⟨space, hb, hspace⟩ := exists_append_behindSpace b
  rw [hb]
  exact h.isBodyOf.append_left fun c hc => isDecoration_of_isBlank (hspace c hc)

/-- If the text is the body of its line, then only decoration stands before a star near its start:
the lead of a text is all that stands before it. -/
theorem isDecoration_of_isBodyOf (h : Trims (Tag.stripStar l) t) (hbody : IsBodyOf t l)
    (hl : l = a ++ '*' :: b) (ha : '*' ∉ a) (hlen : a.length < 10) :
      ∀ c ∈ a, isDecoration c = true := by
  obtain ⟨lead, tail, hsplit, hlead, htail⟩ := hbody
  intro c hc
  by_cases hne : t = []
  · have hmem : c ∈ lead ++ t ++ tail := by
      rw [← hsplit, hl]
      exact List.mem_append_left _ hc
    rw [hne, List.append_nil] at hmem
    exact (List.mem_append.mp hmem).elim (hlead c) fun htailc =>
      isDecoration_of_isBlank (htail c htailc)
  · rw [stripStar_of_star hl ha hlen] at h
    obtain ⟨blanks, tail', hs, -, htail', hends⟩ := h
    obtain ⟨space, hb, -⟩ := exists_append_behindSpace b
    have hsame : lead ++ t ++ tail = (a ++ '*' :: (space ++ blanks)) ++ t ++ tail' := by
      rw [← hsplit, hl, hb, hs]
      simp
    apply hlead c
    rw [lead_eq_of_append_eq hsame htail htail' hends hne]
    exact List.mem_append_left _ hc

/-- A line that does not lose its start keeps its whole body. -/
theorem isBodyOf_of_not_losesStart (h : Trims (Tag.stripStar l) t) (hkeeps : ¬LosesStart l) :
    IsBodyOf t l := by
  by_cases hstar : '*' ∈ l
  · obtain ⟨a, b, hl, ha⟩ := List.eq_append_cons_of_mem hstar
    by_cases hlen : a.length < 10
    · have hlead : ∀ c ∈ a ++ ['*'], isDecoration c = true := by
        intro c hc
        rcases List.mem_append.mp hc with hc | hc
        · apply isDecoration_of_isBlank
          by_contra hvisible
          exact hkeeps ⟨a, b, hl, ha, hlen, c, hc, by simpa using hvisible⟩
        · rw [List.mem_singleton.mp hc]
          rfl
      rw [hl, List.append_cons]
      exact (isBodyOf_behind_star h hl ha hlen).append_left hlead
    · rw [hl, stripStar_append_cons ha, if_neg (show ¬a.length < Tag.starWindow from hlen),
        ← hl] at h
      exact h.isBodyOf
  · rw [stripStar_of_notMem hstar] at h
    exact h.isBodyOf

theorem lineText_of_trims (h : Trims (Tag.stripStar l) t) : LineText l t where
  behind _ _ := isBodyOf_behind_star h
  isBodyOf_iff := by
    refine ⟨?_, isBodyOf_of_not_losesStart h⟩
    rintro hbody ⟨a, b, hl, ha, hlen, c, hc, hvisible⟩
    have hdecoration := isDecoration_of_isBodyOf h hbody hl ha hlen c hc
    rw [isDecoration, hvisible, Bool.false_or, beq_iff_eq] at hdecoration
    exact ha (hdecoration ▸ hc)

end Stars

/-! ### The marker -/

/-- The lines of a tag without its marker: the first line has it, and loses its first occurrence. -/
inductive Unmarked (marker : Text) : List Text → List Text → Prop
  | nil : Unmarked marker [] []
  | cons {a b : Text} {more : List Text} : '@' ∉ a →
      Unmarked marker ((a ++ (marker ++ b)) :: more) ((a ++ b) :: more)

/-- A marker at the first `@` of a line is what is erased. -/
theorem eraseFirst_marker {a : Text} (ha : '@' ∉ a) (name b : Text) :
    eraseFirst ('@' :: name) (a ++ ('@' :: name ++ b)) = a ++ b := by
  have hcut := cut?_append_of_notMem (p := a) (a := []) (b := name) (q := b) ha List.not_mem_nil
  rw [List.nil_append] at hcut
  rw [eraseFirst, cut, hcut, Option.getD_some]

/-- The first line of a tag has the marker to lose. -/
theorem unmarked_eraseFirst {l : Text} (hl : Tag.nameOf l ≠ []) (more : List Text) :
    Unmarked ('@' :: Tag.nameOf l) (l :: more) (eraseFirst ('@' :: Tag.nameOf l) l :: more) := by
  obtain ⟨a, b, hsplit, ha, -⟩ := exists_eq_append_of_nameOf hl
  generalize Tag.nameOf l = name at hsplit ⊢
  rw [hsplit, eraseFirst_marker ha]
  exact .cons ha

/-- **Line by line.** The content of a tag is put together from one text for each of its lines. -/
theorem exists_texts_contentOf {l : Text} (hl : Tag.nameOf l ≠ []) (more : List Text) :
    ∃ sources texts, Unmarked ('@' :: Tag.nameOf l) (l :: more) sources ∧
      List.Forall₂ LineText sources texts ∧
      Tag.contentOf ('@' :: Tag.nameOf l) (l :: more) =
        unlines (texts.filter (keeps ('@' :: Tag.nameOf l))) := by
  refine ⟨_, Tag.firstText ('@' :: Tag.nameOf l) l :: more.map Tag.nextText,
    unmarked_eraseFirst hl more, .cons (lineText_of_trims (trims_trim _)) ?_, rfl⟩
  rw [List.forall₂_map_right_iff, List.forall₂_same]
  intro u _
  exact lineText_of_trims (trims_trimEnd _)

/-! ### The lines of a tag -/

namespace Tag

/-- The place in a list of `n` items that an index stands for; a negative one counts from the
end. -/
def position (n : Nat) (index : Int) : Nat := (if index < 0 then n + index else index).toNat

theorem position_natCast (n m : Nat) : position n m = m := by
  rw [position, if_neg (by omega)]
  omega

theorem position_negSucc (n m : Nat) : position n (Int.negSucc m) = n - (m + 1) := by
  rw [position, if_pos (Int.negSucc_lt_zero m)]
  omega

/-- The lines of a tag, from its first to its last one. -/
def span (tag : Tag) (lines : List Text) : List Text :=
  (lines.take (position lines.length (tag.stop + 1))).drop (position lines.length tag.start)

/-- A tag read at a line spans the lines from there to its last one. -/
theorem span_of_read? {n : Nat} {lines : List Text} {line : Text} {tag : Tag}
    (hline : lines[n]? = some line) (h : read? n line (lines.drop (n + 1)) = some tag) :
    tag.start = n ∧ tag.name = nameOf line ∧ tag.name ≠ [] ∧
      tag.content = contentOf ('@' :: tag.name) (tag.span lines) ∧
        ∃ more, tag.span lines = line :: more := by
  rw [read?] at h
  split at h
  · cases h
  · next hne =>
    obtain rfl := Option.some.inj h
    generalize hmore : (lines.drop (n + 1)).takeWhile (!startsTag ·) = more
    have htake : more = (lines.drop (n + 1)).take more.length := by
      rw [← List.prefix_iff_eq_take, ← hmore]
      exact List.takeWhile_prefix _
    have hspan : (lines.take (n + (more.length + 1))).drop n = line :: more := by
      rw [List.drop_take, Nat.add_sub_cancel_left]
      obtain ⟨hlt, hget⟩ := List.getElem?_eq_some_iff.mp hline
      rw [List.drop_eq_getElem_cons hlt, hget, List.take_succ_cons, ← htake]
    have hstop : position lines.length (((n : Int) + more.length) + 1) = n + (more.length + 1) :=
      position_natCast lines.length (n + (more.length + 1))
    have hstart : position lines.length (n : Int) = n := position_natCast lines.length n
    refine ⟨rfl, rfl, by simpa using hne, ?_, more, ?_⟩
    · rw [span, hstop, hstart, hspan]
    · rw [span, hstop, hstart, hspan]

/-- The same for an index that counts from the end. -/
theorem span_of_readBack? {n : Nat} {lines : List Text} {line : Text} {tag : Tag}
    (hn : n < lines.length) (hline : lines[lines.length - (n + 1)]? = some line)
    (h : readBack? lines (lines.length - (n + 1)) (n + 1) line = some tag) :
    tag.start = Int.negSucc n ∧ tag.name = nameOf line ∧ tag.name ≠ [] ∧
      tag.content = contentOf ('@' :: tag.name) (tag.span lines) ∧
      (tag.span lines = [] ∨ ∃ more, tag.span lines = line :: more) := by
  rw [readBack?] at h
  split at h
  · cases h
  · next hne =>
    obtain rfl := Option.some.inj h
    generalize
      ((lines.drop (lines.length - (n + 1) + 1) ++ lines).takeWhile (!startsTag ·)).length + 1 =
        passed
    have hstart : position lines.length (-((n + 1 : Nat) : Int)) = lines.length - (n + 1) :=
      position_negSucc lines.length n
    have hstop : position lines.length ((passed : Int) - (n + 1 : Nat) - 1 + 1) =
        if passed < n + 1 then lines.length - (n + 1) + passed else passed - (n + 1) := by
      rw [position]
      split <;> split <;> omega
    refine ⟨rfl, rfl, by simpa using hne, ?_, ?_⟩
    · rw [span, hstop, hstart]
    · rw [span, hstop, hstart, List.drop_take]
      obtain ⟨hlt, hget⟩ := List.getElem?_eq_some_iff.mp hline
      rw [List.drop_eq_getElem_cons hlt, hget]
      generalize _ - (lines.length - (n + 1)) = count
      cases count with
      | zero => exact .inl rfl
      | succ count => exact .inr ⟨_, rfl⟩

/-- **What a tag keeps of its lines.** The content of a tag is put together, in order, from the
texts of its lines, the first one without the marker of the tag; left out are those that are empty
or have the marker again. A text is its line without decoration before it and blanks behind it,
exactly if no star among the first ten characters of the line stands behind something that is not
blank. If one does, what stands before it is lost. -/
theorem content_of_lines {lines : List Text} {index : Int} {tag : Tag}
    (h : readAt? lines index = some (some tag)) :
    tag.start = index ∧ ∃ sources texts, Unmarked ('@' :: tag.name) (tag.span lines) sources ∧
      List.Forall₂ LineText sources texts ∧
      tag.content = unlines (texts.filter (keeps ('@' :: tag.name))) := by
  cases index with
  | ofNat n =>
    obtain ⟨line, hline, h⟩ := Option.map_eq_some_iff.mp h
    obtain ⟨hstart, hname, hne, hcontent, more, hspan⟩ := span_of_read? hline h
    refine ⟨hstart, ?_⟩
    rw [hcontent, hspan, hname]
    exact exists_texts_contentOf (hname ▸ hne) more
  | negSucc n =>
    rw [readAt?] at h
    split at h
    · next hn =>
      obtain ⟨line, hline, h⟩ := Option.map_eq_some_iff.mp h
      obtain ⟨hstart, hname, hne, hcontent, hspan⟩ := span_of_readBack? hn hline h
      refine ⟨hstart, ?_⟩
      rcases hspan with hspan | ⟨more, hspan⟩
      · rw [hcontent, hspan]
        exact ⟨[], [], .nil, .nil, rfl⟩
      · rw [hcontent, hspan, hname]
        exact exists_texts_contentOf (hname ▸ hne) more
    · cases h

/-- A product on the line of the tag loses its first factor. Behind a star that is decoration it is
kept. -/
theorem content_of_lines_product :
    let lines : List Text := ["@html 2 * 3".toList, " * 4 * x ".toList]
    let tag : Tag := { name := "html".toList, content := "3\n4 * x".toList, start := 0, stop := 1 }
    readAt? lines 0 = some (some tag) ∧ LosesStart " 2 * 3".toList ∧
      tag.start = 0 ∧ ∃ sources texts, Unmarked ('@' :: tag.name) (tag.span lines) sources ∧
        List.Forall₂ LineText sources texts ∧
        tag.content = unlines (texts.filter (keeps ('@' :: tag.name))) := by
  intro lines tag
  have hread : readAt? lines 0 = some (some tag) := by decide +kernel
  exact ⟨hread, ⟨" 2 ".toList, " 3".toList, rfl, by decide, by decide, '2', by simp, rfl⟩,
    content_of_lines hread⟩

end Tag

end StyleGuide
