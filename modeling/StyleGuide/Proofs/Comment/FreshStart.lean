import StyleGuide.Proofs.Comment.LineRanges

/-!
# Between blocks an extractor starts afresh

An extractor is outside of comments exactly if it has no pieces of an open block, counts parentheses
in a list of options only, and has a separator behind all that it has of a declaration (`Coherent`).
So nothing is left of a block once it is closed, but for the line on which it started, and that is
never read again (`call_start`). Whatever is read from there on is read as by a new extractor,
further down in the file (`calls_behind`).
-/

namespace StyleGuide

open Text

namespace Comment.Extractor

variable {x : Extractor}

/-! ### Coherent states -/

/-- The phase of an extractor tells what the extractor has. -/
structure Coherent (x : Extractor) : Prop where
  pending : x.phase = .idle ↔ x.parts = []
  nested : x.phase = .options → 0 < x.depth
  level : x.phase ≠ .options → x.depth = 0
  separated : x.phase = .declaration ∨ x.phase = .options → x.parts.getLast? = some separatorLine

/-- The extractor is in a block comment, and no parentheses are counted. -/
structure InComment (x : Extractor) : Prop where
  phase : x.phase = .blockComment ∨ x.phase = .propertyComment
  level : x.depth = 0

/-- Closing a block leaves nothing open. -/
theorem coherent_emitAt (x : Extractor) (stop : Int) : Coherent (x.emitAt stop) where
  pending := by simp [emitAt]
  nested := fun h => absurd h (by simp [emitAt])
  level := fun _ => rfl
  separated := fun h => absurd h (by simp [emitAt])

/-- A separator stands at the end of a declaration, or of a line of its options. -/
theorem coherent_of_separated (hparts : x.parts.getLast? = some separatorLine)
    (h : x.phase = .declaration ∧ x.depth = 0 ∨ x.phase = .options ∧ 0 < x.depth) : Coherent x := by
  have hne : x.parts ≠ [] := by
    intro hnil
    rw [hnil] at hparts
    cases hparts
  rcases h with ⟨hphase, hdepth⟩ | ⟨hphase, hdepth⟩
  · exact ⟨by simp [hphase, hne], by simp [hphase], fun _ => hdepth, fun _ => hparts⟩
  · exact ⟨by simp [hphase, hne], fun _ => hdepth, fun h => absurd hphase h, fun _ => hparts⟩

/-- Code of a declaration opens options exactly if it leaves parentheses open. -/
theorem coherent_declarationCode (hphase : x.phase = .declaration) (hdepth : x.depth = 0)
    (code : Text) :
    Coherent (x.declarationCode code) := by
  unfold declarationCode
  dsimp only
  split
  · next hopen => exact coherent_of_separated (by simp [push]) (.inr ⟨rfl, hopen⟩)
  · split
    · exact coherent_emitAt _ _
    · exact coherent_of_separated (by simp [push]) (.inl ⟨hphase, hdepth⟩)

/-- A piece of a comment leaves the extractor in the comment, with something in its block. -/
theorem InComment.addComment (h : InComment x) (lead comment : Text) :
    InComment (x.addComment lead comment) ∧ (x.addComment lead comment).parts ≠ [] := by
  unfold Extractor.addComment
  dsimp only
  split
  · exact ⟨⟨.inr rfl, h.level⟩, by simp [push]⟩
  · exact ⟨⟨h.phase, h.level⟩, by simp [push]⟩

theorem InComment.coherent (h : InComment x) (hparts : x.parts ≠ []) : Coherent x := by
  obtain ⟨hphase, hdepth⟩ := h
  refine ⟨?_, fun hoptions => ?_, fun _ => hdepth, fun hbehind => ?_⟩
  · rcases hphase with hphase | hphase <;> simp [hphase, hparts]
  · rcases hphase with hphase | hphase <;> simp [hphase] at hoptions
  · rcases hphase with hphase | hphase <;> simp [hphase] at hbehind

theorem InComment.endComment (h : InComment x) (code : Text) : Coherent (x.endComment code) := by
  unfold Extractor.endComment
  split
  · dsimp only
    split
    · exact coherent_of_separated (by simp [push]) (.inl ⟨rfl, h.level⟩)
    · apply coherent_declarationCode
      · rfl
      · exact h.level
  · exact coherent_emitAt _ _

theorem InComment.blockCommentLine (h : InComment x) (lead line : Text) :
    Coherent (x.blockCommentLine lead line) := by
  unfold Extractor.blockCommentLine
  split
  · exact (h.addComment lead _).1.endComment _
  · obtain ⟨hadded, hparts⟩ := h.addComment lead line
    exact hadded.coherent hparts

theorem coherent_optionsLine (hphase : x.phase = .options) (line : Text) :
    Coherent (x.optionsLine line) := by
  unfold Extractor.optionsLine
  dsimp only
  split
  · exact coherent_emitAt _ _
  · next hopen =>
    exact coherent_of_separated (by simp [push]) (.inr ⟨hphase, Int.not_le.mp hopen⟩)

namespace Coherent

theorem idleLine (h : Coherent x) (hphase : x.phase = .idle) (line : Text) :
    Coherent (x.idleLine line) := by
  have hdepth : x.depth = 0 := h.level (by simp [hphase])
  unfold Extractor.idleLine
  split
  · have hopened : InComment { x with start := x.line, parts := [], phase := .blockComment } :=
      ⟨.inl rfl, hdepth⟩
    exact hopened.blockCommentLine [] line
  · split
    · exact ⟨by simp, by simp, fun _ => hdepth, by simp⟩
    · exact h

theorem lineCommentLine (h : Coherent x) (hphase : x.phase = .lineComment) (line : Text) :
    Coherent (x.lineCommentLine line) := by
  unfold Extractor.lineCommentLine
  split
  · exact ⟨by simp [push, hphase], by simp [push, hphase], fun _ => h.level (by simp [hphase]),
      by simp [push, hphase]⟩
  · exact (coherent_emitAt _ _).idleLine rfl line

theorem declarationLine (h : Coherent x) (hphase : x.phase = .declaration) (line : Text) :
    Coherent (x.declarationLine line) := by
  unfold Extractor.declarationLine
  split
  · exact (coherent_emitAt _ _).idleLine rfl line
  · split
    · exact coherent_emitAt _ _
    · exact coherent_declarationCode hphase (h.level (by simp [hphase])) line

/-- Counting a line leaves the rest of the state as it is. -/
theorem count (h : Coherent x) (line : Nat) : Coherent { x with line } :=
  ⟨h.pending, h.nested, h.level, h.separated⟩

/-- One line keeps an extractor coherent. -/
theorem feed (h : Coherent x) (line : Text) : Coherent (x.feed line) := by
  have hcount := h.count (x.line + 1)
  have hcomment (hphase : x.phase = .blockComment ∨ x.phase = .propertyComment) :
      InComment { x with line := x.line + 1 } :=
    ⟨hphase, h.level (by rcases hphase with hphase | hphase <;> simp [hphase])⟩
  unfold Extractor.feed
  dsimp only
  split
  · next hphase => exact hcount.idleLine hphase line
  · next hphase => exact hcount.lineCommentLine hphase line
  · next hphase => exact (hcomment (.inl hphase)).blockCommentLine _ line
  · next hphase => exact (hcomment (.inr hphase)).blockCommentLine _ line
  · next hphase => exact hcount.declarationLine hphase line
  · next hphase =>
    apply coherent_optionsLine
    exact hphase

theorem call (h : Coherent x) (c : Call) : Coherent (x.call c) := by
  cases c with
  | feed line => exact h.feed line
  | finish =>
    show Coherent x.finish
    unfold Extractor.finish
    split
    · exact h
    · exact coherent_emitAt _ _

/-- Any calls keep an extractor coherent. -/
theorem calls (h : Coherent x) (cs : List Call) : Coherent (x.calls cs) := by
  induction cs generalizing x with
  | nil => exact h
  | cons c cs ih => exact ih (h.call c)

end Coherent

theorem coherent_new (file : Json) : Coherent { file } :=
  ⟨by simp, by simp, fun _ => rfl, by simp⟩

end Comment.Extractor

/-! ### Further down in a file -/

def CommentBlock.down (n : Nat) (b : CommentBlock) : CommentBlock :=
  { b with start := b.start + n, stop := b.stop + n }

namespace Comment.Extractor

variable {x : Extractor}

/-- The extractor as it would be if other lines had come before all that it has read: `n` lines, in
which it found some blocks. -/
def behind (x : Extractor) (found : List CommentBlock) (n : Nat) : Extractor :=
  { x with blocks := found ++ x.blocks.map (·.down n), start := x.start + n, line := x.line + n }

section Behind

variable (x : Extractor) (found : List CommentBlock) (n : Nat)

/-- A block that is closed further down is the same block with its lines moved. -/
theorem emitAt_behind (stop : Int) : (x.behind found n).emitAt (stop + n) =
    (x.emitAt stop).behind found n := by
  unfold emitAt behind
  dsimp only
  split
  · simp
  · simp [CommentBlock.down]

theorem emit_behind : (x.behind found n).emit = x.emit.behind found n :=
  emitAt_behind x found n x.line

theorem declarationCode_behind (code : Text) :
    (x.behind found n).declarationCode code = (x.declarationCode code).behind found n := by
  unfold declarationCode
  dsimp only
  split
  · rfl
  · split
    · exact emit_behind (x.push _) found n
    · rfl

theorem addComment_behind (lead comment : Text) :
    (x.behind found n).addComment lead comment = (x.addComment lead comment).behind found n := by
  unfold addComment
  split <;> rfl

theorem endComment_behind (code : Text) :
    (x.behind found n).endComment code = (x.endComment code).behind found n := by
  by_cases hphase : x.phase = .propertyComment
  · rw [endComment, endComment, if_pos hphase, if_pos (by exact hphase)]
    dsimp only
    split
    · rfl
    · exact declarationCode_behind { x.push separatorLine with phase := .declaration } found n code
  · rw [endComment, endComment, if_neg hphase, if_neg (by exact hphase), emit_behind]

theorem blockCommentLine_behind (lead line : Text) :
    (x.behind found n).blockCommentLine lead line =
      (x.blockCommentLine lead line).behind found n := by
  unfold blockCommentLine
  split
  · dsimp only
    rw [addComment_behind, endComment_behind]
  · exact addComment_behind x found n lead line

theorem idleLine_behind (line : Text) :
    (x.behind found n).idleLine line = (x.idleLine line).behind found n := by
  unfold idleLine
  split
  · exact blockCommentLine_behind { x with start := x.line, parts := [], phase := .blockComment }
      found n [] line
  · split <;> rfl

theorem lineCommentLine_behind (line : Text) :
    (x.behind found n).lineCommentLine line = (x.lineCommentLine line).behind found n := by
  unfold lineCommentLine
  split
  · rfl
  · rw [emit_behind, idleLine_behind]

theorem declarationLine_behind (line : Text) :
    (x.behind found n).declarationLine line = (x.declarationLine line).behind found n := by
  unfold declarationLine
  split
  · rw [emit_behind, idleLine_behind]
  · split
    · have hline : ((x.line + n : Nat) : Int) - 1 = (x.line : Int) - 1 + n := by omega
      rw [← emitAt_behind, ← hline]
      rfl
    · exact declarationCode_behind x found n line

theorem optionsLine_behind (line : Text) :
    (x.behind found n).optionsLine line = (x.optionsLine line).behind found n := by
  by_cases hclosed : x.depth + parenBalance line ≤ 0
  · rw [optionsLine, optionsLine, if_pos hclosed, if_pos (by exact hclosed), ← emit_behind]
    rfl
  · rw [optionsLine, optionsLine, if_neg hclosed, if_neg (by exact hclosed)]
    rfl

/-- A line is read further down as it is at the start. -/
theorem feed_behind (line : Text) :
    (x.behind found n).feed line = (x.feed line).behind found n := by
  have hcount : ({ x.behind found n with line := (x.behind found n).line + 1 } : Extractor) =
      ({ x with line := x.line + 1 } : Extractor).behind found n := by
    simp [behind, Nat.add_right_comm]
  unfold feed
  dsimp only
  rw [hcount]
  obtain ⟨file, phase, blocks, parts, start, depth, count⟩ := x
  cases phase with
  | idle => exact idleLine_behind _ found n line
  | lineComment => exact lineCommentLine_behind _ found n line
  | blockComment => exact blockCommentLine_behind _ found n _ line
  | propertyComment => exact blockCommentLine_behind _ found n _ line
  | declaration => exact declarationLine_behind _ found n line
  | options => exact optionsLine_behind _ found n line

theorem finish_behind : (x.behind found n).finish = x.finish.behind found n := by
  by_cases hphase : x.phase = .idle
  · rw [finish, finish, if_pos hphase, if_pos (by exact hphase)]
  · rw [finish, finish, if_neg hphase, if_neg (by exact hphase), emit_behind]

/-- Calls do further down, behind some blocks, what they do at the start. -/
theorem calls_behind (cs : List Call) :
    (x.behind found n).calls cs = (x.calls cs).behind found n := by
  induction cs generalizing x with
  | nil => rfl
  | cons c cs ih =>
    have hcall : (x.behind found n).call c = (x.call c).behind found n := by
      cases c with
      | feed line => exact feed_behind x found n line
      | finish => exact finish_behind x found n
    rw [calls_cons, hcall, ih, calls_cons]

end Behind

/-! ### What is left of a closed block -/

section File

variable (x : Extractor)

theorem declarationCode_file (code : Text) : (x.declarationCode code).file = x.file := by
  unfold declarationCode
  dsimp only
  split
  · rfl
  · split <;> rfl

theorem addComment_file (lead comment : Text) : (x.addComment lead comment).file = x.file := by
  unfold addComment
  split <;> rfl

theorem endComment_file (code : Text) : (x.endComment code).file = x.file := by
  unfold endComment
  dsimp only
  split
  · split
    · rfl
    · exact declarationCode_file _ code
  · rfl

theorem blockCommentLine_file (lead line : Text) : (x.blockCommentLine lead line).file =
    x.file := by
  unfold blockCommentLine
  split
  · exact (endComment_file _ _).trans (addComment_file x lead _)
  · exact addComment_file x lead line

theorem idleLine_file (line : Text) : (x.idleLine line).file = x.file := by
  unfold idleLine
  split
  · exact blockCommentLine_file _ [] line
  · split <;> rfl

theorem call_file (c : Call) : (x.call c).file = x.file := by
  cases c with
  | finish =>
    show x.finish.file = x.file
    unfold finish
    split <;> rfl
  | feed line =>
    show (x.feed line).file = x.file
    unfold feed
    dsimp only
    split
    · exact idleLine_file _ line
    · unfold lineCommentLine
      split
      · rfl
      · exact idleLine_file _ line
    · exact blockCommentLine_file _ _ line
    · exact blockCommentLine_file _ _ line
    · unfold declarationLine
      split
      · exact idleLine_file _ line
      · split
        · rfl
        · exact declarationCode_file _ line
    · unfold optionsLine
      dsimp only
      split <;> rfl

end File

/-- The file stays the one that is read, whatever is read. -/
theorem calls_file (x : Extractor) (cs : List Call) : (x.calls cs).file = x.file := by
  induction cs generalizing x with
  | nil => rfl
  | cons c cs ih => rw [calls_cons, ih, call_file]

/-- Outside of comments, the line on which the last block started makes no difference. -/
theorem call_start (hphase : x.phase = .idle) (start : Nat) (c : Call) :
    ({ x with start } : Extractor).call c = x.call c ∨
      (x.call c).phase = .idle ∧
        ({ x with start } : Extractor).call c = { x.call c with start } := by
  cases c with
  | feed line =>
    have hfeed (y : Extractor) (hy : y.phase = .idle) :
        y.feed line = ({ y with line := y.line + 1 } : Extractor).idleLine line := by
      simp only [feed, hy]
    show ({ x with start } : Extractor).feed line = x.feed line ∨
      (x.feed line).phase = .idle ∧
        ({ x with start } : Extractor).feed line = { x.feed line with start }
    rw [hfeed x hphase, hfeed { x with start } hphase]
    unfold idleLine
    split
    · exact .inl rfl
    · split
      · exact .inl rfl
      · exact .inr ⟨hphase, rfl⟩
  | finish =>
    refine .inr ⟨?_, ?_⟩
    · show x.finish.phase = .idle
      rw [finish, if_pos hphase, hphase]
    · show ({ x with start } : Extractor).finish = { x.finish with start }
      rw [finish, finish, if_pos hphase, if_pos (by exact hphase)]

/-- Outside of comments it makes no difference where the last block started. -/
theorem calls_start (hphase : x.phase = .idle) (start : Nat) (cs : List Call) :
    (({ x with start } : Extractor).calls cs).phase = (x.calls cs).phase ∧
      (({ x with start } : Extractor).calls cs).blocks = (x.calls cs).blocks := by
  induction cs generalizing x with
  | nil => exact ⟨rfl, rfl⟩
  | cons c cs ih =>
    rw [calls_cons, calls_cons]
    rcases call_start hphase start c with hsame | ⟨hidle, hstart⟩
    · rw [hsame]
      exact ⟨rfl, rfl⟩
    · rw [hstart]
      exact ih hidle

/-- Outside of comments nothing is left but the blocks, the number of lines, and the line on which
the last block started. -/
theorem Coherent.eq_behind (h : Coherent x) (hidle : x.phase = .idle) :
    x = { ({ file := x.file } : Extractor).behind x.blocks x.line with start := x.start } := by
  have hparts := h.pending.mp hidle
  have hdepth := h.level (by rw [hidle]; decide)
  obtain ⟨file, phase, blocks, parts, start, depth, line⟩ := x
  cases hidle
  cases hparts
  cases hdepth
  simp [behind]

/-- **Between blocks an extractor starts afresh.** After any calls of a new extractor: the phase
tells whether there is an open block, whether parentheses are counted, and that a separator comes
last; and an open block started on one of the lines read. If no block is open, any further calls
take the extractor through the phases of a new one, and it finds the blocks that the new one finds,
so many lines further down. -/
theorem calls_coherent_and_fresh (file : Json) (before : List Call) :
    let new : Extractor := { file }
    let x := new.calls before
    let n := Call.lines before
    (x.phase = .idle ↔ x.parts = []) ∧
      (if x.phase = .options then 0 < x.depth else x.depth = 0) ∧
      (x.phase = .declaration ∨ x.phase = .options → x.parts.getLast? = some separatorLine) ∧
      x.line = n ∧ (x.phase ≠ .idle → 1 ≤ x.start ∧ x.start ≤ n) ∧
      (x.phase = .idle → ∀ after, (x.calls after).phase = (new.calls after).phase ∧
        (x.calls after).blocks = x.blocks ++ (new.calls after).blocks.map (·.down n)) := by
  intro new x n
  have hcoherent : Coherent x := (coherent_new file).calls before
  obtain ⟨hcounted, hordered⟩ := (ordered_new file).calls before
  have hline : x.line = n := hcounted.trans (Nat.zero_add _)
  refine ⟨hcoherent.pending, ?_, hcoherent.separated, hline, ?_, ?_⟩
  · split
    · next hoptions => exact hcoherent.nested hoptions
    · next hoptions => exact hcoherent.level hoptions
  · intro hopen
    obtain ⟨hone, hle, -, -⟩ := hordered.opened hopen
    exact ⟨hone, hline ▸ hle⟩
  · intro hidle after
    have hx := hcoherent.eq_behind hidle
    rw [calls_file new before, hline] at hx
    obtain ⟨hphase, hblocks⟩ := calls_start (x := new.behind x.blocks n) rfl x.start after
    rw [← hx, calls_behind] at hphase hblocks
    exact ⟨hphase, hblocks⟩

/-- Behind a property whose enclosing object is closed, a comment is read as at the start of a
file. -/
theorem calls_coherent_and_fresh_after_property :
    let x := ({ file := .str "a.js" } : Extractor).calls
      [.feed "/** @prop Size */".toList, .feed "size: PropTypes.string".toList, .feed "\x7d".toList]
    x.phase = .idle ∧ x.blocks.length = 1 ∧
      (x.calls [.feed "// note".toList, .finish]).blocks = x.blocks ++
          [⟨"note".toList, 4, 4, .str "a.js"⟩] := by
  intro x
  have hidle : x.phase = .idle := by decide +kernel
  obtain ⟨-, -, -, -, -, hfresh⟩ := calls_coherent_and_fresh (.str "a.js")
    [.feed "/** @prop Size */".toList, .feed "size: PropTypes.string".toList, .feed "\x7d".toList]
  refine ⟨hidle, by decide +kernel, ?_⟩
  rw [(hfresh hidle _).2]
  decide +kernel

end Comment.Extractor

end StyleGuide
