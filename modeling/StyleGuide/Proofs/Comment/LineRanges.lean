import StyleGuide.Comment.Extractor

/-!
# Line ranges of comment blocks

Whatever lines an extractor is fed and wherever it is told that its file ends, the blocks it has
found are never touched again (`calls_keeps_blocks`), each lies within the lines read so far,
and two of them share at most the line on which the first one was closed and the second one
opened.

The second part is an invariant, `Ordered`. It is stated with the first line on which no block
has started yet. That is the line behind the current one between two calls, and the current one
right after it has been counted: only then can a block end a line early, and only then can the
line that closes one block open another.
-/

namespace StyleGuide.Comment

open Text

/-! ### Runs -/

/-- A call of an extractor: the next line, or the end of the file. -/
inductive Call where
  | feed (line : Text)
  | finish
  deriving DecidableEq

def Call.lines (cs : List Call) : Nat := cs.countP (· ≠ .finish)

theorem Call.lines_append (cs ds : List Call) : lines (cs ++ ds) = lines cs + lines ds :=
  List.countP_append

namespace Extractor

def call (x : Extractor) : Call → Extractor
  | .feed line => x.feed line
  | .finish => x.finish

def calls (x : Extractor) (cs : List Call) : Extractor := cs.foldl call x

@[simp] theorem calls_nil (x : Extractor) : x.calls [] = x := rfl

@[simp] theorem calls_cons (x : Extractor) (c : Call) (cs : List Call) :
    x.calls (c :: cs) = (x.call c).calls cs := rfl

theorem calls_append (x : Extractor) (cs ds : List Call) :
    x.calls (cs ++ ds) = (x.calls cs).calls ds := List.foldl_append

/-! ### What a line can do -/

/-- The second extractor has the same open block as the first, as far as its place goes: it may
differ in the text, the depth and the phase. -/
structure SamePlace (x y : Extractor) : Prop where
  blocks : y.blocks = x.blocks
  start : y.start = x.start
  line : y.line = x.line

theorem SamePlace.refl (x : Extractor) : SamePlace x x := ⟨rfl, rfl, rfl⟩

theorem SamePlace.trans {x y z : Extractor} (h : SamePlace x y) (h' : SamePlace y z) :
    SamePlace x z :=
  ⟨h'.blocks.trans h.blocks, h'.start.trans h.start, h'.line.trans h.line⟩

/-- What a line inside a block can do: the block stays open, or it is closed at this line. -/
inductive Within (x : Extractor) : Extractor → Prop
  | stays {y : Extractor} : SamePlace x y → y.phase ≠ .idle → Within x y
  | closes {y : Extractor} : SamePlace x y → Within x y.emit

theorem Within.of_samePlace {x y z : Extractor} (hw : Within y z) (h : SamePlace x y) :
    Within x z := by
  cases hw with
  | stays hz hp => exact .stays (h.trans hz) hp
  | closes hz => exact .closes (h.trans hz)

/-- What a line can do once it is counted. Outside of blocks it is skipped or opens a block, which
it may close too. In a block it may also close it and be read again from outside, or find
that the block has ended with the line before. -/
inductive Reads : Extractor → Extractor → Prop
  | skips {x : Extractor} : x.phase = .idle → Reads x x
  | opens {x y z : Extractor} : x.phase = .idle → Within y z → y.phase ≠ .idle →
      SamePlace { x with start := x.line } y → Reads x z
  | within {x y : Extractor} : x.phase ≠ .idle → Within x y → Reads x y
  | endsEarly {x y : Extractor} : x.phase ≠ .idle → SamePlace x y →
      Reads x (y.emitAt ((x.line : Int) - 1))
  | readsAgain {x y : Extractor} : x.phase ≠ .idle → Reads x.emit y → Reads x y

/-- Code of a declaration leaves the block open or closes it at this line. -/
theorem declarationCode_within {x : Extractor} (hx : x.phase ≠ .idle) (code : Text) :
    Within x (x.declarationCode code) := by
  unfold declarationCode
  dsimp only
  split
  · exact .stays ⟨rfl, rfl, rfl⟩ (by simp)
  · split
    · exact .closes ⟨rfl, rfl, rfl⟩
    · exact .stays ⟨rfl, rfl, rfl⟩ hx

/-- A piece of a comment moves nothing. -/
theorem addComment_samePlace (x : Extractor) (lead comment : Text) :
    SamePlace x (x.addComment lead comment) := by
  unfold addComment
  split <;> exact ⟨rfl, rfl, rfl⟩

theorem addComment_phase_ne_idle {x : Extractor} (hx : x.phase ≠ .idle) (lead comment : Text) :
    (x.addComment lead comment).phase ≠ .idle := by
  unfold addComment
  dsimp only
  split
  · simp
  · exact hx

theorem endComment_within (x : Extractor) (code : Text) : Within x (x.endComment code) := by
  unfold endComment
  split
  · dsimp only
    split
    · exact .stays ⟨rfl, rfl, rfl⟩ (by simp)
    · exact (declarationCode_within (by simp) code).of_samePlace ⟨rfl, rfl, rfl⟩
  · exact .closes (.refl x)

/-- A line inside a comment leaves the block open or closes it at this line. -/
theorem blockCommentLine_within {x : Extractor} (hx : x.phase ≠ .idle) (lead line : Text) :
    Within x (x.blockCommentLine lead line) := by
  unfold blockCommentLine
  split
  · exact (endComment_within _ _).of_samePlace (addComment_samePlace x lead _)
  · exact .stays (addComment_samePlace x lead line) (addComment_phase_ne_idle hx lead line)

theorem optionsLine_within {x : Extractor} (hx : x.phase ≠ .idle) (line : Text) :
    Within x (x.optionsLine line) := by
  unfold optionsLine
  dsimp only
  split
  · exact .closes ⟨rfl, rfl, rfl⟩
  · exact .stays ⟨rfl, rfl, rfl⟩ hx

/-- Outside of comments a line may open a block at itself. -/
theorem idleLine_reads {x : Extractor} (hx : x.phase = .idle) (line : Text) :
    Reads x (x.idleLine line) := by
  unfold idleLine
  split
  · exact .opens hx (blockCommentLine_within (by simp) _ _) (by simp) ⟨rfl, rfl, rfl⟩
  · split
    · exact .opens hx (.stays (.refl _) (by simp)) (by simp) ⟨rfl, rfl, rfl⟩
    · exact .skips hx

theorem lineCommentLine_reads {x : Extractor} (hx : x.phase ≠ .idle) (line : Text) :
    Reads x (x.lineCommentLine line) := by
  unfold lineCommentLine
  split
  · exact .within hx (.stays ⟨rfl, rfl, rfl⟩ hx)
  · exact .readsAgain hx (idleLine_reads rfl line)

/-- A line may end the declaration before it, and open a block at itself. -/
theorem declarationLine_reads {x : Extractor} (hx : x.phase ≠ .idle) (line : Text) :
    Reads x (x.declarationLine line) := by
  unfold declarationLine
  split
  · exact .readsAgain hx (idleLine_reads rfl line)
  · split
    · exact .endsEarly hx ⟨rfl, rfl, rfl⟩
    · exact .within hx (declarationCode_within hx line)

/-- Feeding a line counts it and reads it. -/
theorem feed_reads (x : Extractor) (line : Text) :
    Reads { x with line := x.line + 1 } (x.feed line) := by
  cases hp : x.phase with
  | idle =>
    simp only [feed, hp]
    exact idleLine_reads rfl line
  | lineComment =>
    simp only [feed, hp]
    exact lineCommentLine_reads (by simp) line
  | blockComment =>
    simp only [feed, hp]
    exact .within (by simp) (blockCommentLine_within (by simp) _ line)
  | propertyComment =>
    simp only [feed, hp]
    exact .within (by simp) (blockCommentLine_within (by simp) _ line)
  | declaration =>
    simp only [feed, hp]
    exact declarationLine_reads (by simp) line
  | options =>
    simp only [feed, hp]
    exact .within (by simp) (optionsLine_within (by simp) line)

/-! ### Found blocks stay -/

theorem emitAt_keeps_blocks (x : Extractor) (stop : Int) :
    x.blocks <+: (x.emitAt stop).blocks :=
  List.prefix_append _ _

theorem Within.keeps_blocks {x y : Extractor} (h : Within x y) : x.blocks <+: y.blocks := by
  cases h with
  | stays hy _ => exact hy.blocks ▸ List.prefix_refl _
  | closes hy =>
    rw [← hy.blocks]
    exact emitAt_keeps_blocks _ _

theorem Reads.keeps_blocks {x y : Extractor} (h : Reads x y) : x.blocks <+: y.blocks := by
  induction h with
  | skips _ => exact List.prefix_refl _
  | opens _ hz _ hy =>
    have hzy := hz.keeps_blocks
    rwa [hy.blocks] at hzy
  | within _ hy => exact hy.keeps_blocks
  | endsEarly _ hy =>
    rw [← hy.blocks]
    exact emitAt_keeps_blocks _ _
  | readsAgain _ _ ih => exact (emitAt_keeps_blocks _ _).trans ih

/-- Blocks that are closed stay, in their order. -/
theorem call_keeps_blocks (x : Extractor) (c : Call) : x.blocks <+: (x.call c).blocks := by
  cases c with
  | feed line => exact (feed_reads x line).keeps_blocks
  | finish =>
    show x.blocks <+: x.finish.blocks
    unfold finish
    split
    · exact List.prefix_refl _
    · exact emitAt_keeps_blocks _ _

/-- Blocks that were found are still there after further calls, before all that is found later. -/
theorem calls_keeps_blocks (x : Extractor) (cs : List Call) :
    x.blocks <+: (x.calls cs).blocks := by
  induction cs generalizing x with
  | nil => exact List.prefix_refl _
  | cons c cs ih => exact (call_keeps_blocks x c).trans (ih (x.call c))

/-! ### The order of ranges -/

/-- The first block starts before the second one, and ends no later than the second one
starts. -/
def Before (a b : CommentBlock) : Prop := a.start < b.start ∧ a.stop ≤ b.start

/-- The ranges of the blocks are in order and within the lines read, and the open block comes
behind them. On the line `next` and later ones no block has started yet. -/
structure Ordered (x : Extractor) (next : Nat) : Prop where
  inRange : ∀ b ∈ x.blocks, 1 ≤ b.start ∧ b.start ≤ b.stop ∧ b.stop ≤ x.line ∧ b.start < next
  apart : x.blocks.Pairwise Before
  opened : x.phase ≠ .idle → 1 ≤ x.start ∧ x.start ≤ x.line ∧ x.start < next ∧
    ∀ b ∈ x.blocks, b.start < x.start ∧ b.stop ≤ x.start

/-- A block that is found when the open one is closed has the place of the open one. -/
theorem emitAt_blocks (x : Extractor) (stop : Int) :
    ∃ found : List CommentBlock, (x.emitAt stop).blocks = x.blocks ++ found ∧
      found.Pairwise Before ∧ ∀ b ∈ found, b.start = x.start ∧ b.stop = stop := by
  refine ⟨_, rfl, ?_, ?_⟩
  · split <;> simp
  · intro b hb
    split at hb
    · simp at hb
    · obtain rfl := List.mem_singleton.mp hb
      exact ⟨rfl, rfl⟩

namespace Ordered

variable {x y : Extractor} {next : Nat}

theorem of_samePlace (h : Ordered x next) (hy : SamePlace x y)
    (hp : y.phase ≠ .idle → x.phase ≠ .idle) : Ordered y next := by
  obtain ⟨hb, hs, hl⟩ := hy
  refine ⟨?_, ?_, fun hidle => ?_⟩
  · rw [hb, hl]
    exact h.inRange
  · rw [hb]
    exact h.apart
  · rw [hb, hs, hl]
    exact h.opened (hp hidle)

/-- Closing the open block at one of its lines keeps the order. -/
theorem emitAt (h : Ordered x next) (hx : x.phase ≠ .idle) (hy : SamePlace x y) {stop : Int}
    (hstart : x.start ≤ stop) (hstop : stop ≤ x.line) : Ordered (y.emitAt stop) next := by
  obtain ⟨hone, hline, hnext, hbehind⟩ := h.opened hx
  obtain ⟨found, hblocks, hpair, hplace⟩ := emitAt_blocks y stop
  rw [hy.blocks] at hblocks
  rw [hy.start] at hplace
  refine ⟨?_, ?_, fun hidle => absurd rfl hidle⟩
  · intro b hb
    rw [hblocks] at hb
    show 1 ≤ b.start ∧ b.start ≤ b.stop ∧ b.stop ≤ y.line ∧ b.start < next
    rw [hy.line]
    rcases List.mem_append.mp hb with hb | hb
    · exact h.inRange b hb
    · have := hplace b hb
      omega
  · rw [hblocks, List.pairwise_append]
    refine ⟨h.apart, hpair, fun a ha b hb => ?_⟩
    obtain ⟨hbs, -⟩ := hplace b hb
    rw [Before, hbs]
    exact hbehind a ha

/-- Closing the open block at the current line keeps the order. -/
theorem emit (h : Ordered x next) (hx : x.phase ≠ .idle) (hy : SamePlace x y) :
    Ordered y.emit next := by
  obtain ⟨-, hline, -, -⟩ := h.opened hx
  apply h.emitAt hx hy
  · rw [hy.line]
    exact Int.ofNat_le.mpr hline
  · exact Int.le_of_eq (congrArg Int.ofNat hy.line)

/-- A line inside a block keeps the order. -/
theorem within (h : Ordered x next) (hx : x.phase ≠ .idle) (hy : Within x y) :
    Ordered y next := by
  cases hy with
  | stays hy _ => exact h.of_samePlace hy fun _ => hx
  | closes hy => exact h.emit hx hy

/-- A new block may be opened on a line on which none has started. -/
theorem opening (h : Ordered x x.line) (hline : 1 ≤ x.line)
    (hy : SamePlace { x with start := x.line } y) : Ordered y (x.line + 1) := by
  obtain ⟨hb, hs, hl⟩ := hy
  refine ⟨?_, ?_, fun _ => ?_⟩
  · rw [hb, hl]
    intro b hmem
    have := h.inRange b hmem
    show 1 ≤ b.start ∧ b.start ≤ b.stop ∧ b.stop ≤ x.line ∧ b.start < (x.line + 1 : Nat)
    omega
  · rw [hb]
    exact h.apart
  · rw [hb, hs, hl]
    refine ⟨hline, Nat.le_refl _, Nat.lt_succ_self _, fun b hmem => ?_⟩
    have := h.inRange b hmem
    show b.start < (x.line : Int) ∧ b.stop ≤ x.line
    omega

theorem mono (h : Ordered x next) {later : Nat} (hle : next ≤ later) : Ordered x later := by
  refine ⟨fun b hb => ?_, h.apart, fun hx => ?_⟩
  · have := h.inRange b hb
    omega
  · obtain ⟨hone, hline, hnext, hbehind⟩ := h.opened hx
    exact ⟨hone, hline, Nat.lt_of_lt_of_le hnext hle, hbehind⟩

/-- Reading a line that has been counted, and on which no block has started, keeps the order. -/
theorem reads (hr : Reads x y) (h : Ordered x x.line) (hline : 1 ≤ x.line) :
    Ordered y (x.line + 1) := by
  induction hr with
  | skips _ => exact h.mono (Nat.le_succ _)
  | opens _ hz hp hy => exact (h.opening hline hy).within hp hz
  | within hx hy => exact (h.within hx hy).mono (Nat.le_succ _)
  | endsEarly hx hy =>
    -- The block started before the current line, so the line before it is still one of its lines.
    obtain ⟨-, -, hnext, -⟩ := h.opened hx
    exact (h.emitAt hx hy (by omega) (by omega)).mono (Nat.le_succ _)
  | readsAgain hx _ ih =>
    -- Closing the block starts none, so the line is still free for the one that it may open.
    exact ih (h.emit hx (.refl _)) hline

/-- Counting a line leaves it free for a block to start on. -/
theorem count (h : Ordered x (x.line + 1)) :
    Ordered { x with line := x.line + 1 } (x.line + 1) := by
  refine ⟨fun b hb => ?_, h.apart, fun hx => ?_⟩
  · have := h.inRange b hb
    show 1 ≤ b.start ∧ b.start ≤ b.stop ∧ b.stop ≤ (x.line + 1 : Nat) ∧ b.start < (x.line + 1 : Nat)
    omega
  · obtain ⟨hone, hline, hnext, hbehind⟩ := h.opened hx
    exact ⟨hone, Nat.le_succ_of_le hline, hnext, hbehind⟩

/-- The next line keeps the order: what it closes ends before the following line. -/
theorem feed (h : Ordered x (x.line + 1)) (line : Text) :
    Ordered (x.feed line) (x.line + 2) :=
  reads (feed_reads x line) h.count (Nat.succ_pos _)

/-- The end of the file keeps the order. -/
theorem finish (h : Ordered x next) : Ordered x.finish next := by
  unfold Extractor.finish
  split
  · exact h
  · next hx => exact h.emit hx (.refl x)

end Ordered

/-! ### Counting lines -/

theorem Within.line_eq {x y : Extractor} (h : Within x y) : y.line = x.line := by
  cases h with
  | stays hy _ => exact hy.line
  | closes hy => exact hy.line

theorem Reads.line_eq {x y : Extractor} (h : Reads x y) : y.line = x.line := by
  induction h with
  | skips _ => rfl
  | opens _ hz _ hy => exact hz.line_eq.trans hy.line
  | within _ hy => exact hy.line_eq
  | endsEarly _ hy => exact hy.line
  | readsAgain _ _ ih => exact ih

theorem finish_line (x : Extractor) : x.finish.line = x.line := by
  unfold finish
  split <;> rfl

/-- The line of an extractor is the number of lines that it was fed. -/
theorem call_line (x : Extractor) (c : Call) :
    (x.call c).line = x.line + Call.lines [c] := by
  cases c with
  | feed line => exact (feed_reads x line).line_eq
  | finish => exact finish_line x

/-- One call keeps the order. -/
theorem Ordered.call {x : Extractor} (h : Ordered x (x.line + 1)) (c : Call) :
    Ordered (x.call c) ((x.call c).line + 1) := by
  rw [call_line]
  cases c with
  | feed line => exact h.feed line
  | finish => exact h.finish

/-- Any calls count their lines and keep the order. -/
theorem Ordered.calls {x : Extractor} (h : Ordered x (x.line + 1)) (cs : List Call) :
    (x.calls cs).line = x.line + Call.lines cs ∧
      Ordered (x.calls cs) ((x.calls cs).line + 1) := by
  induction cs generalizing x with
  | nil => exact ⟨rfl, h⟩
  | cons c cs ih =>
    obtain ⟨hline, hordered⟩ := ih (h.call c)
    refine ⟨?_, hordered⟩
    rw [calls_cons, hline, call_line, Nat.add_assoc, ← Call.lines_append, List.singleton_append]

theorem ordered_new (file : Json) : Ordered { file } 1 :=
  ⟨by simp, List.Pairwise.nil, fun h => absurd rfl h⟩

/-- **Line ranges.** After any calls of a new extractor, and any further ones: the blocks found so
far come first among those found in the end; each of them lies within the lines fed so far; and of
any two the first one starts on an earlier line and ends no later than the second one starts. -/
theorem calls_line_ranges (file : Json) (before after : List Call) :
    let x := ({ file } : Extractor).calls before
    let y := ({ file } : Extractor).calls (before ++ after)
    x.blocks <+: y.blocks ∧
      (∀ b ∈ x.blocks, 1 ≤ b.start ∧ b.start ≤ b.stop ∧ b.stop ≤ Call.lines before) ∧
      x.blocks.Pairwise fun a b => a.start < b.start ∧ a.stop ≤ b.start := by
  intro x y
  obtain ⟨hline, hordered⟩ := (ordered_new file).calls before
  refine ⟨?_, fun b hb => ?_, hordered.apart⟩
  · show x.blocks <+: (calls _ (before ++ after)).blocks
    rw [calls_append]
    exact calls_keeps_blocks x after
  · obtain ⟨hone, hle, hstop, -⟩ := hordered.inRange b hb
    rw [hline] at hstop
    exact ⟨hone, hle, by simpa using hstop⟩

end Extractor

end StyleGuide.Comment
