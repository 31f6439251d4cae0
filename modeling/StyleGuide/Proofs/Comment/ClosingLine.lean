import StyleGuide.Proofs.Comment.Declarations

/-!
# Code behind a closing marker

The comment of a property may be closed on a line that goes on with code. The code is then part of
the declaration, as it would be on a line of its own. The two are compared here: a line that is cut
behind the marker against the same line in one piece, with any lines after it.

Extractors that differ in line numbers only stay so (`SameButLines.foldl_feed`), so it is enough to
look at the code itself. It makes no difference where it stands, unless it opens a comment or closes
the enclosing object: on a line of its own that ends the block before it, behind the marker it is
taken into the block. `closingLine_iff` says so for every continuation of the file.
-/

namespace StyleGuide.Comment

open Text

/-! ### Texts that grow -/

/-- What is added to a text shows, unless it is decoration. -/
theorem normalize_append_ne {t u : Text} (hu : ∃ c ∈ u, isDecoration c = false) :
    normalize (t ++ u) ≠ normalize t := by
  obtain ⟨c, hc, hdecoration⟩ := hu
  have hblank : isBlank c = false := by
    rw [isDecoration, Bool.or_eq_false_iff] at hdecoration
    exact hdecoration.1
  by_cases ht : t.dropWhile isDecoration = []
  · have hnil : normalize t = [] := by rw [normalize, ht]; rfl
    rw [hnil]
    exact normalize_ne_nil (List.mem_append_right t hc) hdecoration
  · -- The decoration ends within `t`, so the new text is longer by what is left of `u`.
    have hdrop : (t ++ u).dropWhile isDecoration = t.dropWhile isDecoration ++ u := by
      rw [List.dropWhile_append, if_neg (by simpa using ht)]
    have hnew : trimEnd u ≠ [] := by
      intro hnil
      rw [dropEndWhile_eq_nil_iff.mp hnil c hc] at hblank
      cases hblank
    rw [normalize, hdrop, trimEnd_append ⟨c, hc, hblank⟩, normalize]
    intro heq
    have hle := (dropEndWhile_prefixOf isBlank (t.dropWhile isDecoration)).length_le
    have hlt := List.length_pos_iff.mpr hnew
    have hlength := congrArg List.length heq
    rw [List.length_append] at hlength
    unfold trimEnd at hlength hlt
    omega

namespace Extractor

/-! ### Extractors that differ in line numbers -/

/-- The two extractors are in the same state and have found the same texts, perhaps on other
lines. -/
structure SameButLines (x y : Extractor) : Prop where
  file : x.file = y.file
  phase : x.phase = y.phase
  texts : x.blocks.map (·.text) = y.blocks.map (·.text)
  parts : x.parts = y.parts
  depth : x.depth = y.depth

namespace SameButLines

variable {x y : Extractor}

theorem push (h : SameButLines x y) (t : Text) : SameButLines (x.push t) (y.push t) :=
  ⟨h.file, h.phase, h.texts, congrArg (· ++ [t]) h.parts, h.depth⟩

/-- A block is closed on both sides, at whatever lines. -/
theorem emitAt (h : SameButLines x y) (m n : Int) : SameButLines (x.emitAt m) (y.emitAt n) where
  file := h.file
  phase := rfl
  texts := by
    have hfound : ∀ start stop start' stop' : Int,
        (blockOf x.file x.parts.flatten start stop).map (·.text) =
          (blockOf y.file y.parts.flatten start' stop').map (·.text) := by
      intro start stop start' stop'
      rw [h.parts, blockOf, blockOf]
      split <;> rfl
    show (x.blocks ++ blockOf _ _ _ _).map _ = (y.blocks ++ blockOf _ _ _ _).map _
    rw [List.map_append, List.map_append, h.texts, hfound]
  parts := rfl
  depth := rfl

theorem emit (h : SameButLines x y) : SameButLines x.emit y.emit := h.emitAt _ _

theorem declarationCode (h : SameButLines x y) (code : Text) :
    SameButLines (x.declarationCode code) (y.declarationCode code) := by
  have hpush := h.push (stripMarkers code)
  have hseparator := hpush.push separatorLine
  unfold Extractor.declarationCode
  dsimp only
  split
  · exact ⟨hseparator.file, rfl, hseparator.texts, hseparator.parts, rfl⟩
  · split
    · exact hpush.emit
    · exact hseparator

theorem addComment (h : SameButLines x y) (lead comment : Text) :
    SameButLines (x.addComment lead comment) (y.addComment lead comment) := by
  have hpush := h.push (lead ++ stripMarkers comment)
  unfold Extractor.addComment
  dsimp only
  split
  · exact ⟨hpush.file, rfl, hpush.texts, hpush.parts, hpush.depth⟩
  · exact hpush

theorem endComment (h : SameButLines x y) (code : Text) :
    SameButLines (x.endComment code) (y.endComment code) := by
  have hpush := h.push separatorLine
  have hdeclaration : SameButLines { x.push separatorLine with phase := .declaration }
      { y.push separatorLine with phase := .declaration } :=
    ⟨hpush.file, rfl, hpush.texts, hpush.parts, hpush.depth⟩
  unfold Extractor.endComment
  rw [h.phase]
  dsimp only
  split
  · split
    · exact hdeclaration
    · exact hdeclaration.declarationCode code
  · exact h.emit

theorem blockCommentLine (h : SameButLines x y) (lead line : Text) :
    SameButLines (x.blockCommentLine lead line) (y.blockCommentLine lead line) := by
  unfold Extractor.blockCommentLine
  split
  · exact (h.addComment lead _).endComment _
  · exact h.addComment lead line

theorem idleLine (h : SameButLines x y) (line : Text) :
    SameButLines (x.idleLine line) (y.idleLine line) := by
  have hopened : SameButLines { x with start := x.line, parts := [], phase := .blockComment }
      { y with start := y.line, parts := [], phase := .blockComment } :=
    ⟨h.file, rfl, h.texts, rfl, h.depth⟩
  unfold Extractor.idleLine
  split
  · exact hopened.blockCommentLine [] line
  · split
    · exact ⟨h.file, rfl, h.texts, rfl, h.depth⟩
    · exact h

theorem lineCommentLine (h : SameButLines x y) (line : Text) :
    SameButLines (x.lineCommentLine line) (y.lineCommentLine line) := by
  unfold Extractor.lineCommentLine
  split
  · exact h.push _
  · exact h.emit.idleLine line

theorem declarationLine (h : SameButLines x y) (line : Text) :
    SameButLines (x.declarationLine line) (y.declarationLine line) := by
  have hshortened : ∀ parts : List Text, SameButLines { x with parts } { y with parts } :=
    fun _ => ⟨h.file, h.phase, h.texts, rfl, h.depth⟩
  unfold Extractor.declarationLine
  rw [h.parts]
  dsimp only
  split
  · exact h.emit.idleLine line
  · split
    · exact (hshortened _).emitAt _ _
    · exact h.declarationCode line

theorem optionsLine (h : SameButLines x y) (line : Text) :
    SameButLines (x.optionsLine line) (y.optionsLine line) := by
  have hpush := h.push line
  have hcounted : SameButLines { x.push line with depth := y.depth + parenBalance line }
      { y.push line with depth := y.depth + parenBalance line } :=
    ⟨hpush.file, hpush.phase, hpush.texts, hpush.parts, rfl⟩
  unfold Extractor.optionsLine
  rw [h.depth]
  dsimp only
  split
  · exact hcounted.emit
  · exact hcounted.push separatorLine

/-- **One line.** -/
theorem feed (h : SameButLines x y) (line : Text) : SameButLines (x.feed line) (y.feed line) := by
  unfold Extractor.feed
  extract_lets x' y'
  have hnext : SameButLines x' y' := ⟨h.file, h.phase, h.texts, h.parts, h.depth⟩
  clear_value x' y'
  rw [hnext.phase]
  split
  · exact hnext.idleLine line
  · exact hnext.lineCommentLine line
  · exact hnext.blockCommentLine _ line
  · exact hnext.blockCommentLine _ line
  · exact hnext.declarationLine line
  · exact hnext.optionsLine line

/-- **A run.** -/
theorem foldl_feed (h : SameButLines x y) (ls : List Text) :
    SameButLines (ls.foldl Extractor.feed x) (ls.foldl Extractor.feed y) := by
  induction ls generalizing x y with
  | nil => exact h
  | cons l ls ih => exact ih (h.feed l)

theorem finish (h : SameButLines x y) : SameButLines x.finish y.finish := by
  unfold Extractor.finish
  rw [h.phase]
  split
  · exact h
  · exact h.emit

end SameButLines

/-! ### The line that closes a comment -/

/-- The extractor behind the closing marker of a comment that announces a property, of which `p` is
the last piece. -/
def behindComment (x : Extractor) (p : Text) : Extractor :=
  { { x with line := x.line + 1 }.addComment ['\n'] p |>.push separatorLine with
    phase := .declaration }

variable {x : Extractor} {p code : Text}

section Closing

variable (hx : x.phase = .blockComment ∨ x.phase = .propertyComment) (hp : ¬['*', '/'] <:+: p)
  (hline : isLineComment (p ++ ['*', '/'] ++ code) = false)
  (hproperty : x.phase = .propertyComment ∨ announcesProperty p = true)

include hx hp hline hproperty

/-- A line that closes a comment leaves the extractor behind it, with the rest of the line as
code. -/
theorem feed_closing :
    x.feed (p ++ ['*', '/'] ++ code) =
      if (trim code).isEmpty then x.behindComment p
        else (x.behindComment p).declarationCode code := by
  have hcut : cut? ['*', '/'] (p ++ ['*', '/'] ++ code) = some (p, code) := by
    rw [List.append_assoc]
    exact cut?_append_of_unbordered (by decide) hp
  have hcloses : closesBlock (p ++ ['*', '/'] ++ code) = true := by
    rw [closesBlock, hline, has, hcut]
    rfl
  have hphase : ({ x with line := x.line + 1 }.addComment ['\n'] p).phase = .propertyComment := by
    rw [addComment]
    rcases hproperty with hproperty | hproperty
    · split
      · rfl
      · exact hproperty
    · rw [if_pos hproperty]
  have hfeed : x.feed (p ++ ['*', '/'] ++ code) =
      ({ x with line := x.line + 1 }.addComment ['\n'] p).endComment code := by
    have hpieces : cut ['*', '/'] (p ++ ['*', '/'] ++ code) = (p, code) := by rw [cut, hcut]; rfl
    rcases hx with hx | hx <;>
      simp only [feed, hx, blockCommentLine, hcloses, if_true, hpieces]
  rw [hfeed, endComment, if_pos hphase]
  rfl

theorem feed_closing_code (hcode : ∃ c ∈ code, isBlank c = false) :
    x.feed (p ++ ['*', '/'] ++ code) = (x.behindComment p).declarationCode code := by
  have hvisible : trim code ≠ [] := by
    intro hnil
    obtain ⟨c, hc, hblank⟩ := hcode
    rw [trim_eq_nil_iff.mp hnil c hc] at hblank
    cases hblank
  rw [feed_closing hx hp hline hproperty, if_neg (by simpa using hvisible)]

/-- The line without its code is no line comment either, so it closes the comment as well. -/
theorem feed_closing_cut : x.feed (p ++ ['*', '/']) = x.behindComment p := by
  have hcut : isLineComment (p ++ ['*', '/'] ++ []) = false := by
    rw [List.append_nil, Bool.eq_false_iff]
    intro h
    rw [isLineComment_append h code] at hline
    cases hline
  have h := feed_closing hx hp hcut hproperty
  rwa [List.append_nil] at h

end Closing

/-- Code that neither opens a comment nor closes the object is read in the same way behind the
marker and on the next line. -/
theorem declarationCode_sameButLines (hopens : opensBlock code = false)
    (hobject : closesObject code = false) :
    SameButLines ((x.behindComment p).declarationCode code) ((x.behindComment p).feed code) := by
  have hobject : (trim code).head? ≠ some '\x7d' := by simpa [closesObject] using hobject
  have hnext : SameButLines (x.behindComment p)
      { x.behindComment p with line := (x.behindComment p).line + 1 } := ⟨rfl, rfl, rfl, rfl, rfl⟩
  have hfeed : (x.behindComment p).feed code =
      { x.behindComment p with line := (x.behindComment p).line + 1 }.declarationCode code := by
    rw [feed, behindComment]
    simp only [declarationLine, hopens, hobject, Bool.false_eq_true, if_false]
  rw [hfeed]
  exact hnext.declarationCode code

/-! ### Code that ends the block before it -/

/-- A block that goes on by a solid text is kept, and has that text at its end. -/
theorem texts_emit {u : Text} {y z : Extractor} (hu : ∃ c ∈ u, isDecoration c = false)
    (hblocks : z.blocks = y.blocks) (hparts : z.parts.flatten = y.parts.flatten ++ u) :
    z.emit.blocks.map (·.text) = y.blocks.map (·.text) ++ [normalize (y.parts.flatten ++ u)] := by
  obtain ⟨c, hc, hdecoration⟩ := hu
  have hne := normalize_ne_nil (List.mem_append_right y.parts.flatten hc) hdecoration
  show (z.blocks ++ blockOf _ _ _ _).map _ = _
  rw [hblocks, hparts, List.map_append, blockOf, if_neg (by simpa using hne)]
  rfl

/-- If the file ends behind the code of a declaration, then the code shows in the block. -/
theorem texts_finish_declarationCode {y : Extractor} (hy : y.phase ≠ .idle) (code : Text) :
    ∃ u : Text, (∃ c ∈ u, isDecoration c = false) ∧
      (y.declarationCode code).finish.blocks.map (·.text) =
        y.blocks.map (·.text) ++ [normalize (y.parts.flatten ++ u)] := by
  have hseparator : ∃ c ∈ stripMarkers code ++ separatorLine, isDecoration c = false :=
    ⟨'s', List.mem_append_right _ (by decide), by decide⟩
  unfold declarationCode
  dsimp only
  split
  · refine ⟨_, hseparator, ?_⟩
    rw [finish, if_neg (by simp)]
    exact texts_emit hseparator rfl (by simp [push])
  · split
    · next hcomma =>
      rw [Bool.and_eq_true, List.contains_iff_mem] at hcomma
      have hmem := mem_stripMarkers hcomma.1 (by decide) (by decide)
      have hcode : ∃ c ∈ stripMarkers code, isDecoration c = false := ⟨',', hmem, by decide⟩
      refine ⟨_, hcode, ?_⟩
      show (y.push (stripMarkers code)).emit.blocks.map _ = _
      exact texts_emit hcode rfl (by simp [push])
    · have hopen : ((y.push (stripMarkers code)).push separatorLine).phase ≠ .idle := hy
      refine ⟨_, hseparator, ?_⟩
      rw [finish, if_neg hopen]
      exact texts_emit hseparator rfl (by simp [push])

/-- Code on a line of its own that opens a comment leaves a block without the code. -/
theorem texts_feed_opensBlock (x : Extractor) (p : Text) (hopens : opensBlock code = true) :
    ∃ more : List Text, ((x.behindComment p).feed code).finish.blocks.map (·.text) =
      (x.behindComment p).blocks.map (·.text) ++
        normalize (x.behindComment p).parts.flatten :: more := by
  obtain ⟨parts, hparts⟩ : ∃ parts, (x.behindComment p).parts = parts ++ [separatorLine] := ⟨_, rfl⟩
  have hflatten : (x.behindComment p).parts.flatten = parts.flatten ++ separatorLine := by
    rw [hparts, List.flatten_append, List.flatten_singleton]
  generalize hz : { x.behindComment p with line := (x.behindComment p).line + 1 } = z
  have hemit : z.emit.blocks.map (·.text) =
      (x.behindComment p).blocks.map (·.text) ++ [normalize (parts.flatten ++ separatorLine)] := by
    subst hz
    exact texts_emit (y := { x.behindComment p with parts }) ⟨'s', by decide, by decide⟩ rfl
      hflatten
  have hfeed : (x.behindComment p).feed code = z.emit.idleLine code := by
    subst hz
    simp only [feed, behindComment, declarationLine, hopens, if_true]
  have hgrows : z.emit.blocks <+: (z.emit.idleLine code).finish.blocks :=
    (idleLine_reads rfl code).keeps_blocks.trans (call_keeps_blocks _ .finish)
  obtain ⟨more, hmore⟩ := hgrows
  refine ⟨more.map (·.text), ?_⟩
  rw [hfeed, ← hmore, List.map_append, hemit, hflatten, List.append_assoc, List.singleton_append]

/-- Code on a line of its own that closes the object leaves a block without the code, if any. -/
theorem texts_feed_closesObject (x : Extractor) (p : Text) (hopens : opensBlock code = false)
    (hobject : closesObject code = true) :
    ∃ (t : Text) (found : List Text), (x.behindComment p).parts.flatten = t ++ separatorLine ∧
      (found = [] ∨ found = [normalize t]) ∧
      ((x.behindComment p).feed code).finish.blocks.map (·.text) =
        (x.behindComment p).blocks.map (·.text) ++ found := by
  obtain ⟨parts, hparts⟩ : ∃ parts, (x.behindComment p).parts = parts ++ [separatorLine] := ⟨_, rfl⟩
  have hobject : (trim code).head? = some '\x7d' := by simpa [closesObject] using hobject
  have hfeed : (x.behindComment p).feed code =
      { x.behindComment p with parts, line := (x.behindComment p).line + 1 }.emitAt
        (((x.behindComment p).line + 1 : Nat) - 1) := by
    have hphase : (x.behindComment p).phase = .declaration := rfl
    simp only [feed, hphase, declarationLine, hopens, hobject, hparts, Bool.false_eq_true, if_false,
      if_true, List.getLast?_append, List.getLast?_singleton, Option.some_or, List.dropLast_concat]
  refine ⟨parts.flatten, (blockOf x.file parts.flatten 0 0).map (·.text), ?_, ?_, ?_⟩
  · rw [hparts, List.flatten_append, List.flatten_singleton]
  · rw [blockOf]
    split
    · exact .inl rfl
    · exact .inr rfl
  · rw [hfeed]
    show ((x.behindComment p).blocks ++ blockOf _ parts.flatten _ _).map _ = _
    rw [List.map_append, blockOf, blockOf]
    split <;> rfl

/-- The block has the code if that stands behind the marker, and not if that ends the block
first. -/
theorem texts_declarationCode_ne_feed (x : Extractor) (p : Text)
    (h : opensBlock code = true ∨ closesObject code = true) :
    ((x.behindComment p).declarationCode code).finish.blocks.map (·.text) ≠
      ((x.behindComment p).feed code).finish.blocks.map (·.text) := by
  have hdeclaration : (x.behindComment p).phase ≠ .idle := by simp [behindComment]
  obtain ⟨u, hu, hfound⟩ := texts_finish_declarationCode hdeclaration code
  rw [hfound]
  intro htexts
  by_cases hopens : opensBlock code
  · obtain ⟨more, hmore⟩ := texts_feed_opensBlock x p hopens
    rw [hmore, List.append_cancel_left_eq, List.cons.injEq] at htexts
    exact normalize_append_ne hu htexts.1
  · -- The separator before the code is gone, too.
    have hobject := h.resolve_left hopens
    obtain ⟨t, found, hparts, hcases, hfeed⟩ :=
      texts_feed_closesObject x p (by simpa using hopens) hobject
    rw [hfeed, List.append_cancel_left_eq, hparts, List.append_assoc] at htexts
    rcases hcases with rfl | rfl
    · cases htexts
    · obtain ⟨c, hc, hdecoration⟩ := hu
      exact normalize_append_ne ⟨c, List.mem_append_right _ hc, hdecoration⟩
        (List.cons.inj htexts).1

/-- **Code behind a closing marker.** For a line that closes the comment of a property and goes on
with code, and the same line cut behind the marker, the same texts are found, however the file goes
on, exactly if the code neither opens a comment nor closes the enclosing object. -/
theorem closingLine_iff (hx : x.phase = .blockComment ∨ x.phase = .propertyComment)
    (hp : ¬['*', '/'] <:+: p) (hline : isLineComment (p ++ ['*', '/'] ++ code) = false)
    (hproperty : x.phase = .propertyComment ∨ announcesProperty p = true)
    (hcode : ∃ c ∈ code, isBlank c = false) :
    (∀ more : List Text,
      let oneLine := (((p ++ ['*', '/'] ++ code) :: more).foldl feed x).finish
      let twoLines := (((p ++ ['*', '/']) :: code :: more).foldl feed x).finish
      oneLine.blocks.map (·.text) = twoLines.blocks.map (·.text) ∧
        oneLine.phase = twoLines.phase) ↔
      opensBlock code = false ∧ closesObject code = false := by
  simp only [List.foldl_cons, feed_closing_code hx hp hline hproperty hcode,
    feed_closing_cut hx hp hline hproperty]
  constructor
  · intro h
    -- The difference shows as soon as the file ends behind the code.
    have hsame := (h []).1
    by_contra hnot
    have hends : opensBlock code = true ∨ closesObject code = true := by
      rwa [not_and_or, Bool.not_eq_false, Bool.not_eq_false] at hnot
    exact texts_declarationCode_ne_feed x p hends hsame
  · rintro ⟨hopens, hobject⟩ more
    have hread := declarationCode_sameButLines (x := x) (p := p) hopens hobject
    have hsame := (hread.foldl_feed more).finish
    exact ⟨hsame.texts, hsame.phase⟩

/-- A second comment behind the marker is taken into the block of the first one. -/
theorem closingLine_iff_comment :
    let x : Extractor := ({ file := "a.js" } : Extractor).feed "/**".toList
    let p : Text := " * @prop X ".toList
    let code : Text := " /* b */".toList
    (x.phase = .blockComment ∧ ¬['*', '/'] <:+: p ∧
      isLineComment (p ++ ['*', '/'] ++ code) = false ∧ announcesProperty p = true ∧
      ∃ c ∈ code, isBlank c = false) ∧
      ¬∀ more : List Text,
        let oneLine := (((p ++ ['*', '/'] ++ code) :: more).foldl feed x).finish
        let twoLines := (((p ++ ['*', '/']) :: code :: more).foldl feed x).finish
        oneLine.blocks.map (·.text) = twoLines.blocks.map (·.text) ∧
          oneLine.phase = twoLines.phase := by
  intro x p code
  have hx : x.phase = .blockComment := by decide +kernel
  have hp : ¬['*', '/'] <:+: p := by decide +kernel
  have hline : isLineComment (p ++ ['*', '/'] ++ code) = false := by decide +kernel
  have hproperty : announcesProperty p = true := by decide +kernel
  have hcode : ∃ c ∈ code, isBlank c = false := ⟨'b', by decide +kernel, by decide⟩
  refine ⟨⟨hx, hp, hline, hproperty, hcode⟩, fun h => ?_⟩
  have hopens := ((closingLine_iff (.inl hx) hp hline (.inr hproperty) hcode).mp h).1
  exact absurd hopens (by decide +kernel)

end Extractor

end StyleGuide.Comment
