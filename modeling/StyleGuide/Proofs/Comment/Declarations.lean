import StyleGuide.Proofs.Comment.LineRanges
import StyleGuide.Proofs.Comment.Segments

/-!
# How far the block of a property goes

A comment that announces a property takes the lines behind it along. Which lines these are, and what
becomes of them, can be told from the lines as a whole (`capture`): the first line that does not
simply go on with the declaration decides. It may open the next comment, close the enclosing object,
end the declaration with a comma, or open parentheses; in the last case the declaration goes on to
the first line that closes them all. The end of the file ends what is still open.

The main statement, `finish_foldl_feed_propertyComment`, is that the extractor makes one block of
the comment and these lines, on reading the line that ends it and not before, and reads all later
lines as if it started there.
-/

namespace StyleGuide.Comment

open Text

/-! ### Comments that announce a property -/

/-- A block comment that announces a property and has nothing behind it on its last line. -/
structure PropertyComment where
  /-- The lines before the last one. -/
  before : List Text
  /-- The line that closes the comment. -/
  last : Text
  opens : (before ++ [last]).head?.any opensBlock = true
  notClosed : ∀ l ∈ before, closesBlock l = false
  closes : closesBlock last = true
  nothingBehind : ∀ c ∈ (cut ['*', '/'] last).2, isBlank c = true
  announces : ∃ l ∈ before ++ [(cut ['*', '/'] last).1], announcesProperty l = true

namespace PropertyComment

def lines (c : PropertyComment) : List Text := c.before ++ [c.last]

def pieces (c : PropertyComment) : List Text := c.before ++ [(cut ['*', '/'] c.last).1]

def text (c : PropertyComment) : Text := unlines (c.pieces.map stripMarkers)

end PropertyComment

/-! ### What is captured of a declaration -/

/-- The line closes the object that the declaration stands in. -/
def closesObject (line : Text) : Bool := (trim line).head? = some '\x7d'

/-- The line has a comma, and is no comment. -/
def hasComma (line : Text) : Bool := line.contains ',' && !isLineComment line

/-- The line belongs to a declaration and leaves it open. -/
def goesOn (line : Text) : Bool :=
  !opensBlock line && !closesObject line && parenBalance line ≤ 0 && !hasComma line

/-- How many lines behind `line` it takes to close all the parentheses that it opens. -/
def closingLine? (line : Text) (ls : List Text) : Option Nat :=
  (List.range' 1 ls.length).find? fun k => parenBalance (line :: ls.take k).flatten ≤ 0

/-- What ends the block of a property: a new comment, the end of the enclosing object, the end of
the declaration, or the end of the file. -/
inductive Ending where
  | newComment
  | object
  | complete
  | file
  deriving DecidableEq

/-- The lines that a block takes along, as they stand in it, and what ends it. -/
structure Capture where
  texts : List Text
  ending : Ending

namespace Capture

/-- The number of the line that ends the block. That is the line behind the captured ones, unless
the last of these completes the declaration. -/
def line (e : Capture) : Nat :=
  if e.ending = .complete then e.texts.length else e.texts.length + 1

/-- The number of the line with which the block ends. A new comment is counted. -/
def stop (e : Capture) : Nat :=
  if e.ending = .newComment then e.texts.length + 1 else e.texts.length

/-- How many lines are used up. The line that closes the object is, a new comment is not. -/
def taken (e : Capture) : Nat :=
  if e.ending = .object then e.texts.length + 1 else e.texts.length

/-- What stands behind the captured lines: a separator, if the declaration was cut off. -/
def tail (e : Capture) : List Text :=
  if e.ending = .newComment ∨ e.ending = .file then [separatorLine] else []

/-- The captured lines in the block, each behind a separator. -/
def text (e : Capture) : Text := e.texts.flatMap (separatorLine ++ ·) ++ e.tail.flatten

end Capture

/-- What the block of a property captures of the lines behind its comment. -/
def capture (ds : List Text) : Capture :=
  let before := ds.takeWhile goesOn
  match ds.dropWhile goesOn with
  | [] => ⟨before.map stripMarkers, .file⟩
  | d :: rest =>
    let declared := before.map stripMarkers ++ [stripMarkers d]
    if opensBlock d then ⟨before.map stripMarkers, .newComment⟩
    else if closesObject d then ⟨before.map stripMarkers, .object⟩
    -- What does not go on without opening parentheses has a comma.
    else if parenBalance d ≤ 0 then ⟨declared, .complete⟩
    else match closingLine? d rest with
      | some k => ⟨declared ++ rest.take k, .complete⟩
      | none => ⟨declared ++ rest, .file⟩

/-! ### Characters that stay -/

theorem at_mem_of_announcesProperty {t : Text} (ht : announcesProperty t = true) : '@' ∈ t := by
  induction t with
  | nil => simp [announcesProperty] at ht
  | cons c t ih =>
    rw [announcesProperty, Bool.or_eq_true, Bool.and_eq_true, List.isPrefixOf_iff_prefix] at ht
    rcases ht with ⟨htag, -⟩ | ht
    · exact htag.subset (by decide)
    · exact List.mem_cons_of_mem c (ih ht)

theorem mem_unlines {ts : List Text} {t : Text} {c : Char} (ht : t ∈ ts) (hc : c ∈ t) :
    c ∈ unlines ts := by
  rw [← flatten_behindNewlines]
  cases ts with
  | nil => simp at ht
  | cons u us =>
    rcases List.mem_cons.mp ht with rfl | ht
    · exact List.mem_flatten_of_mem List.mem_cons_self hc
    · exact List.mem_flatten_of_mem (List.mem_cons_of_mem u (List.mem_map_of_mem ht))
        (List.mem_cons_of_mem '\n' hc)

/-- A character that belongs to no marker and is not blank is not stripped. -/
theorem mem_stripMarkers {line : Text} {c : Char} (hc : c ∈ line) (hmarker : c ∉ ['/', '*'])
    (hblank : isBlank c = false) : c ∈ stripMarkers line := by
  have herase : ∀ t : Text, c ∈ t → c ∈ eraseFirst ['*', '/'] t := by
    intro t ht
    rw [eraseFirst]
    rcases cut_cases ['*', '/'] t with hcut | hcut
    · simpa [hcut] using ht
    · have hne : c ∉ ['*', '/'] := by simpa [and_comm] using hmarker
      rw [hcut, List.mem_append, List.mem_append] at ht
      rw [List.mem_append]
      exact ht.imp_left fun h => h.resolve_right hne
  apply herase
  cases hcut : cut? ['/', '*'] line with
  | none => exact hc
  | some parts =>
    obtain ⟨before, after⟩ := parts
    rw [eq_append_of_cut? hcut, List.mem_append, List.mem_append] at hc
    obtain ⟨rest, hbefore, hrest⟩ := exists_dropEndWhile_append isBlank before
    show c ∈ trimEnd before ++ after
    rw [List.mem_append]
    rcases hc with (hc | hc) | hc
    · rw [hbefore, List.mem_append] at hc
      refine .inl (hc.resolve_right fun h => ?_)
      rw [hrest c h] at hblank
      cases hblank
    · exact absurd hc hmarker
    · exact .inr hc

/-- Text with more than decoration is kept. -/
theorem normalize_ne_nil {t : Text} {c : Char} (hc : c ∈ t) (hdecoration : isDecoration c = false) :
    normalize t ≠ [] := by
  intro h
  have hdrop : c ∈ t.dropWhile isDecoration := by
    rw [← List.takeWhile_append_dropWhile (p := isDecoration) (l := t), List.mem_append] at hc
    refine hc.resolve_left fun htake => ?_
    rw [List.all_eq_true.mp List.all_takeWhile c htake] at hdecoration
    cases hdecoration
  have hblank := dropEndWhile_eq_nil_iff.mp h c hdrop
  simp [isDecoration, hblank] at hdecoration

/-- Something is left of the text of a comment that announces a property, whatever is added to
it. -/
theorem PropertyComment.blockOf_text (c : PropertyComment) (file : Json) (t : Text)
    (start stop : Int) :
    blockOf file (c.text ++ t) start stop = [⟨normalize (c.text ++ t), start, stop, file⟩] := by
  obtain ⟨l, hl, hannounces⟩ := c.announces
  have hat : '@' ∈ c.text :=
    mem_unlines (List.mem_map_of_mem hl)
      (mem_stripMarkers (at_mem_of_announcesProperty hannounces) (by decide) (by decide))
  have hne := normalize_ne_nil (List.mem_append_left t hat) (by decide)
  rw [blockOf, if_neg (by simpa using hne)]

namespace Extractor

variable {x : Extractor} {c : PropertyComment}

/-! ### In a declaration -/

/-- The extractor in the declaration behind a comment that starts on the next line: `texts` are the
captured lines so far, and `tail` stands behind them. -/
def holding (x : Extractor) (c : PropertyComment) (texts tail : List Text) : Extractor :=
  { x with
    phase := .declaration
    parts := behindNewlines (c.pieces.map stripMarkers) ++
      texts.flatMap (fun t => [separatorLine, t]) ++ tail
    start := x.line + 1
    line := x.line + c.lines.length + texts.length }

def awaiting (x : Extractor) (c : PropertyComment) (texts : List Text) : Extractor :=
  x.holding c texts [separatorLine]

/-- The extractor in a list of options, with `depth` open parentheses. -/
def inOptions (x : Extractor) (c : PropertyComment) (texts : List Text) (depth : Int) : Extractor :=
  { x.awaiting c texts with phase := .options, depth }

/-- The extractor behind the block of a comment and what it has captured. -/
def closedBy (x : Extractor) (c : PropertyComment) (e : Capture) : Extractor :=
  { file := x.file
    blocks := x.blocks ++ [⟨normalize (c.text ++ e.text), (x.line + 1 : Nat),
      (x.line + c.lines.length + e.stop : Nat), x.file⟩]
    start := x.line + 1
    line := x.line + c.lines.length + e.taken }

/-- Closing the block of a property gives the comment with the captured lines. -/
theorem emitAt_holding (c : PropertyComment) (texts tail : List Text) (stop : Int) :
    (x.holding c texts tail).emitAt stop =
      { file := x.file
        blocks := x.blocks ++
          [⟨normalize (c.text ++ (texts.flatMap (separatorLine ++ ·) ++ tail.flatten)),
          (x.line + 1 : Nat), stop, x.file⟩]
        start := x.line + 1
        line := x.line + c.lines.length + texts.length } := by
  have hseparators : (texts.flatMap fun t => [separatorLine, t]).flatten =
      texts.flatMap (separatorLine ++ ·) := by
    induction texts with
    | nil => rfl
    | cons t ts ih => simp [ih]
  have hparts : (x.holding c texts tail).parts.flatten =
      c.text ++ (texts.flatMap (separatorLine ++ ·) ++ tail.flatten) := by
    rw [holding, List.flatten_append, List.flatten_append, flatten_behindNewlines, hseparators,
      List.append_assoc]
    rfl
  rw [← c.blockOf_text, ← hparts]
  rfl

/-- Behind a comment that announces a property, the extractor waits for the declaration. -/
theorem foldl_feed_propertyComment (hx : x.phase = .idle) (c : PropertyComment) :
    c.lines.foldl feed x = x.awaiting c [] := by
  have hblank : trim (cut ['*', '/'] c.last).2 = [] := trim_eq_nil_iff.mpr c.nothingBehind
  have hphase : (x.inComment c.pieces).phase = .propertyComment := by
    have hany : c.pieces.any announcesProperty = true := List.any_eq_true.mpr c.announces
    rw [inComment, hany]
    rfl
  have hlength : c.pieces.length = c.lines.length := by
    rw [PropertyComment.pieces, PropertyComment.lines, List.length_append, List.length_append]
    rfl
  rw [PropertyComment.lines, foldl_feed_closed hx c.opens c.notClosed c.closes]
  rw [← PropertyComment.pieces, endComment, if_pos hphase, hblank, awaiting, holding, ← hlength]
  simp [push, inComment]

/-- A line that neither opens a comment nor closes the object. -/
theorem feed_awaiting {texts : List Text} {d : Text} (hopens : opensBlock d = false)
    (hobject : closesObject d = false) :
    (x.awaiting c texts).feed d =
      if 0 < parenBalance d then x.inOptions c (texts ++ [stripMarkers d]) (parenBalance d)
      else if hasComma d then (x.holding c (texts ++ [stripMarkers d]) []).emit
      else x.awaiting c (texts ++ [stripMarkers d]) := by
  have hobject : (trim d).head? ≠ some '\x7d' := by simpa [closesObject] using hobject
  have hfeed : (x.awaiting c texts).feed d =
      { x.awaiting c texts with line := x.line + c.lines.length + texts.length + 1 }.declarationCode
          d := by
    simp only [feed, awaiting, holding, declarationLine, hopens, hobject, Bool.false_eq_true,
      if_false]
  rw [hfeed, declarationCode, inOptions, awaiting, awaiting, holding, holding, holding,
    emit, emitAt, hasComma]
  simp [push, emit, emitAt, Nat.add_assoc]

/-- In a list of options, the line that closes the last parenthesis ends the block. -/
theorem feed_inOptions {texts : List Text} {depth : Int} {l : Text} :
    (x.inOptions c texts depth).feed l =
      if depth + parenBalance l ≤ 0 then (x.holding c (texts ++ [l]) []).emit
      else x.inOptions c (texts ++ [l]) (depth + parenBalance l) := by
  simp [feed, inOptions, awaiting, holding, optionsLine, push, emit, emitAt, Nat.add_assoc]

/-- A new comment ends the declaration before it is read itself. -/
theorem feed_newComment {texts : List Text} {d : Text} (hopens : opensBlock d = true) :
    (x.awaiting c texts).feed d = (x.closedBy c ⟨texts, .newComment⟩).feed d := by
  have hclosed : (x.awaiting c texts).emitAt (x.line + c.lines.length + texts.length + 1 : Nat) =
      x.closedBy c ⟨texts, .newComment⟩ := emitAt_holding c texts [separatorLine] _
  rw [← hclosed]
  simp only [feed, awaiting, holding, declarationLine, hopens, if_true]
  rfl

/-- The end of the enclosing object ends the declaration and belongs to nothing. -/
theorem feed_closesObject {texts : List Text} {d : Text} (hopens : opensBlock d = false)
    (hobject : closesObject d = true) :
    (x.awaiting c texts).feed d = x.closedBy c ⟨texts, .object⟩ := by
  have hobject : (trim d).head? = some '\x7d' := by simpa [closesObject] using hobject
  have hstop : ((x.line + c.lines.length + texts.length + 1 : Nat) : Int) - 1 =
      (x.line + c.lines.length + texts.length : Nat) := by omega
  -- The last separator is taken back, and the line before is the end of the block.
  have hfeed : (x.awaiting c texts).feed d =
      { (x.holding c texts []).emitAt (x.line + c.lines.length + texts.length : Nat) with
        line := x.line + c.lines.length + texts.length + 1 } := by
    rw [← hstop]
    simp [feed, awaiting, holding, declarationLine, hopens, hobject, emitAt]
  rw [hfeed, emitAt_holding]
  rfl

/-- Lines that leave the declaration open are captured without markers. -/
theorem foldl_feed_goesOn {texts ds : List Text} (hds : ∀ d ∈ ds, goesOn d = true) :
    ds.foldl feed (x.awaiting c texts) = x.awaiting c (texts ++ ds.map stripMarkers) := by
  induction ds generalizing texts with
  | nil => rw [List.map_nil, List.append_nil, List.foldl_nil]
  | cons d ds ih =>
    obtain ⟨hd, hrest⟩ := List.forall_mem_cons.mp hds
    simp only [goesOn, Bool.and_eq_true, Bool.not_eq_true', decide_eq_true_eq] at hd
    obtain ⟨⟨⟨hopens, hobject⟩, hclosed⟩, hcomma⟩ := hd
    rw [List.foldl_cons, feed_awaiting hopens hobject, if_neg (Int.not_lt.mpr hclosed), hcomma,
      if_neg Bool.false_ne_true, ih hrest, List.map_cons, List.append_assoc, List.singleton_append]

/-- As long as parentheses are open, lines are captured as they are. -/
theorem foldl_feed_inOptions {texts ls : List Text} {depth : Int}
    (hopen : ∀ j, 0 < j → j ≤ ls.length → 0 < depth + parenBalance (ls.take j).flatten) :
    ls.foldl feed (x.inOptions c texts depth) =
      x.inOptions c (texts ++ ls) (depth + parenBalance ls.flatten) := by
  induction ls generalizing texts depth with
  | nil => simp [parenBalance]
  | cons l ls ih =>
    have hl : 0 < depth + parenBalance l := by simpa using hopen 1 (by omega) (by simp)
    rw [List.foldl_cons, feed_inOptions, if_neg (Int.not_le.mpr hl), ih]
    · rw [List.append_assoc, List.singleton_append, List.flatten_cons, parenBalance_append,
        Int.add_assoc]
    · intro j hj hle
      have h := hopen (j + 1) (by omega) (by simpa using hle)
      rwa [List.take_succ_cons, List.flatten_cons, parenBalance_append, ← Int.add_assoc] at h

/-! ### The end of the block -/

theorem finish_awaiting (texts : List Text) :
    (x.awaiting c texts).finish = x.closedBy c ⟨texts, .file⟩ :=
  emitAt_holding c texts [separatorLine] _

theorem finish_inOptions (texts : List Text) (depth : Int) :
    (x.inOptions c texts depth).finish = x.closedBy c ⟨texts, .file⟩ := by
  rw [← finish_awaiting]
  rfl

/-- The block of a comment that has just been read ends as it is captured: on the line that ends it
and not before. -/
structure Captures (x : Extractor) (c : PropertyComment) (ds : List Text) (e : Capture) : Prop where
  pending : ∀ n < e.line, ((ds.take n).foldl feed (x.awaiting c [])).blocks = x.blocks
  closed : (ds.foldl feed (x.awaiting c [])).finish =
    ((ds.drop e.taken).foldl feed (x.closedBy c e)).finish

/-- Blocks that are closed stay. -/
theorem foldl_feed_keeps_blocks (x : Extractor) (ls : List Text) :
    x.blocks <+: (ls.foldl feed x).blocks := by
  induction ls generalizing x with
  | nil => exact List.prefix_rfl
  | cons l ls ih => exact (call_keeps_blocks x (.feed l)).trans (ih _)

/-- It is enough to look at the extractor right before the line that ends the block. -/
theorem Captures.of_before {before rest used left : List Text} {e : Capture} {z : Extractor}
    (hbefore : before.foldl feed (x.awaiting c []) = z) (hblocks : z.blocks = x.blocks)
    (hline : e.line ≤ before.length + 1) (hsplit : before ++ rest = used ++ left)
    (htaken : used.length = e.taken)
    (hrest : (rest.foldl feed z).finish = (left.foldl feed (x.closedBy c e)).finish) :
    Captures x c (before ++ rest) e where
  pending n hn := by
    have hn : n ≤ before.length := by omega
    rw [List.take_append_of_le_length hn]
    have hgrows := foldl_feed_keeps_blocks ((before.take n).foldl feed (x.awaiting c []))
      (before.drop n)
    rw [← List.foldl_append, List.take_append_drop, hbefore, hblocks] at hgrows
    exact hgrows.eq_of_length_le (foldl_feed_keeps_blocks (x.awaiting c []) _).length_le
  closed := by
    rw [List.foldl_append, hbefore, hrest, hsplit, List.drop_left' htaken]

section Endings

variable {before : List Text} (hbefore : ∀ d ∈ before, goesOn d = true)

include hbefore

theorem foldl_feed_before :
    before.foldl feed (x.awaiting c []) = x.awaiting c (before.map stripMarkers) := by
  rw [foldl_feed_goesOn hbefore, List.nil_append]

theorem captures_file : Captures x c (before ++ []) ⟨before.map stripMarkers, .file⟩ := by
  apply Captures.of_before (foldl_feed_before hbefore) rfl _ rfl
  · simp [Capture.taken]
  · exact finish_awaiting _
  · simp [Capture.line]

variable {d : Text} {rest : List Text}

theorem captures_newComment (hopens : opensBlock d = true) :
    Captures x c (before ++ d :: rest) ⟨before.map stripMarkers, .newComment⟩ := by
  apply Captures.of_before (foldl_feed_before hbefore) rfl _ rfl
  · simp [Capture.taken]
  · rw [List.foldl_cons, List.foldl_cons, feed_newComment hopens]
  · simp [Capture.line]

theorem captures_object (hopens : opensBlock d = false) (hobject : closesObject d = true) :
    Captures x c (before ++ d :: rest) ⟨before.map stripMarkers, .object⟩ := by
  apply Captures.of_before (foldl_feed_before hbefore) rfl _ (List.append_cons before d rest)
  · simp [Capture.taken]
  · rw [List.foldl_cons, feed_closesObject hopens hobject]
  · simp [Capture.line]

variable (hopens : opensBlock d = false) (hobject : closesObject d = false)

include hopens hobject

/-- A comma ends the declaration with its line. -/
theorem captures_comma (hclosed : parenBalance d ≤ 0) (hcomma : hasComma d = true) :
    Captures x c (before ++ d :: rest) ⟨before.map stripMarkers ++ [stripMarkers d],
      .complete⟩ := by
  apply Captures.of_before (foldl_feed_before hbefore) rfl _ (List.append_cons before d rest)
  · simp [Capture.taken]
  · rw [List.foldl_cons, feed_awaiting hopens hobject, if_neg (Int.not_lt.mpr hclosed),
      if_pos hcomma, emit, emitAt_holding]
    rfl
  · simp [Capture.line]

variable {opts : List Text}
  (hopen : ∀ j ≤ opts.length, 0 < parenBalance (d :: opts.take j).flatten)

include hopen

/-- The lines of a list of options that is still open. -/
theorem foldl_feed_opts :
    (before ++ d :: opts).foldl feed (x.awaiting c []) =
      x.inOptions c (before.map stripMarkers ++ [stripMarkers d] ++ opts)
        (parenBalance (d :: opts).flatten) := by
  have hd : 0 < parenBalance d := by simpa using hopen 0 (Nat.zero_le _)
  rw [List.foldl_append, foldl_feed_before hbefore, List.foldl_cons, feed_awaiting hopens hobject,
    if_pos hd, foldl_feed_inOptions]
  · rw [List.flatten_cons, parenBalance_append]
  · intro j _ hj
    rw [← parenBalance_append, ← List.flatten_cons]
    exact hopen j hj

theorem captures_options_file :
    Captures x c ((before ++ d :: opts) ++ [])
      ⟨before.map stripMarkers ++ [stripMarkers d] ++ opts, .file⟩ := by
  apply Captures.of_before (foldl_feed_opts hbefore hopens hobject hopen) rfl _ rfl
  · simp [Capture.taken]
  · exact finish_inOptions _ _
  · simp [Capture.line]

/-- The line that closes the parentheses is the last one of the block. -/
theorem captures_options_complete {l : Text}
    (hclosed : parenBalance (d :: (opts ++ [l])).flatten ≤ 0) :
    Captures x c ((before ++ d :: opts) ++ l :: rest)
      ⟨before.map stripMarkers ++ [stripMarkers d] ++ (opts ++ [l]), .complete⟩ := by
  have hdepth : parenBalance (d :: opts).flatten + parenBalance l ≤ 0 := by
    rw [← parenBalance_append]
    simpa using hclosed
  apply Captures.of_before (foldl_feed_opts hbefore hopens hobject hopen) rfl _
    (List.append_cons (before ++ d :: opts) l rest)
  · simp [Capture.taken]
  · rw [List.foldl_cons, feed_inOptions, if_pos hdepth, emit, emitAt_holding, List.append_assoc]
    rfl
  · simp only [Capture.line, if_true, List.length_append, List.length_cons, List.length_map,
      List.length_nil]
    omega

end Endings

/-- No line closes the parentheses if they are open behind each of them. -/
theorem closingLine?_eq_none_iff {d : Text} {ls : List Text} :
    closingLine? d ls = none ↔
      ∀ j, 0 < j → j ≤ ls.length → 0 < parenBalance (d :: ls.take j).flatten := by
  rw [closingLine?, List.find?_range'_eq_none]
  simp only [Bool.not_eq_true', decide_eq_false_iff_not, Int.not_le, Nat.add_comm 1,
    Nat.lt_succ_iff]
  rfl

/-- The lines up to the closing one. -/
theorem exists_of_closingLine? {d : Text} {ls : List Text} {k : Nat}
    (h : closingLine? d ls = some k) :
    ∃ opts l rest, ls = opts ++ l :: rest ∧ ls.take k = opts ++ [l] ∧
      parenBalance (d :: (opts ++ [l])).flatten ≤ 0 ∧
      ∀ j, 0 < j → j ≤ opts.length → 0 < parenBalance (d :: opts.take j).flatten := by
  rw [closingLine?, List.find?_range'_eq_some, List.mem_range'_1, decide_eq_true_eq] at h
  obtain ⟨hclosed, ⟨hpos, hle⟩, hopen⟩ := h
  obtain ⟨m, rfl⟩ : ∃ m, k = m + 1 := ⟨k - 1, by omega⟩
  have hm : m < ls.length := by omega
  have htake : ls.take (m + 1) = ls.take m ++ [ls[m]] := List.take_succ_eq_append_getElem hm
  refine ⟨ls.take m, ls[m], ls.drop (m + 1), ?_, htake, ?_, ?_⟩
  · rw [← List.drop_eq_getElem_cons hm, List.take_append_drop]
  · rwa [← htake]
  · intro j hj hle
    rw [List.length_take] at hle
    have hj' := hopen j hj (by omega)
    rw [List.take_take, Nat.min_eq_left (by omega)]
    simpa using hj'

/-- The block ends as it is captured, whatever lines follow its comment. -/
theorem captures_capture (x : Extractor) (c : PropertyComment) (ds : List Text) :
    Captures x c ds (capture ds) := by
  have hbefore : ∀ d ∈ ds.takeWhile goesOn, goesOn d = true :=
    List.all_eq_true.mp List.all_takeWhile
  have hds : ds.takeWhile goesOn ++ ds.dropWhile goesOn = ds := List.takeWhile_append_dropWhile
  have hstops := List.head?_dropWhile_not goesOn ds
  rw [capture]
  dsimp only
  generalize ds.takeWhile goesOn = before at hbefore hds
  generalize ds.dropWhile goesOn = after at hds hstops
  subst hds
  cases after with
  | nil => exact captures_file hbefore
  | cons d rest =>
    dsimp only
    by_cases hopens : opensBlock d
    · rw [if_pos hopens]
      exact captures_newComment hbefore hopens
    rw [if_neg hopens]
    have hopens : opensBlock d = false := by simpa using hopens
    by_cases hobject : closesObject d
    · rw [if_pos hobject]
      exact captures_object hbefore hopens hobject
    rw [if_neg hobject]
    have hobject : closesObject d = false := by simpa using hobject
    by_cases hclosed : parenBalance d ≤ 0
    · rw [if_pos hclosed]
      apply captures_comma hbefore hopens hobject hclosed
      simpa [goesOn, hopens, hobject, hclosed] using hstops
    rw [if_neg hclosed]
    have hd : 0 < parenBalance d := Int.not_le.mp hclosed
    -- The line itself leaves parentheses open, so only the lines behind it have to be looked at.
    have hopen : ∀ opts : List Text,
        (∀ j, 0 < j → j ≤ opts.length → 0 < parenBalance (d :: opts.take j).flatten) →
        ∀ j ≤ opts.length, 0 < parenBalance (d :: opts.take j).flatten := by
      intro opts hopts j hj
      rcases Nat.eq_zero_or_pos j with rfl | hpos
      · simpa using hd
      · exact hopts j hpos hj
    cases hclosing : closingLine? d rest with
    | none =>
      rw [← List.append_nil (before ++ d :: rest)]
      exact captures_options_file hbefore hopens hobject
        (hopen rest (closingLine?_eq_none_iff.mp hclosing))
    | some k =>
      obtain ⟨opts, l, more, rfl, htake, hend, hopts⟩ := exists_of_closingLine? hclosing
      dsimp only
      rw [htake, ← List.cons_append, ← List.append_assoc before]
      exact captures_options_complete hbefore hopens hobject (hopen opts hopts) hend

/-- **The block of a property.** From outside of comments, a comment that announces a property
becomes one block with what is captured of the lines behind it. It is found on reading the line that
ends it and not before, and all later lines are read as if the extractor started there. -/
theorem finish_foldl_feed_propertyComment (hx : x.phase = .idle) (c : PropertyComment)
    (ds : List Text) :
    let e := capture ds
    let block : CommentBlock := ⟨normalize (c.text ++ e.text), (x.line + 1 : Nat),
      (x.line + c.lines.length + e.stop : Nat), x.file⟩
    (∀ n < e.line, ((c.lines ++ ds.take n).foldl feed x).blocks = x.blocks) ∧
      ((c.lines ++ ds).foldl feed x).finish = ((ds.drop e.taken).foldl feed
        { file := x.file
          blocks := x.blocks ++ [block]
          start := x.line + 1
          line := x.line + c.lines.length + e.taken }).finish := by
  obtain ⟨hpending, hclosed⟩ := captures_capture x c ds
  constructor
  · intro n hn
    rw [List.foldl_append, foldl_feed_propertyComment hx]
    exact hpending n hn
  · rw [List.foldl_append, foldl_feed_propertyComment hx]
    exact hclosed

/-- Options over three lines, of which the second one has a comma and a closing brace and still
leaves parentheses open, and a line of code behind them. -/
theorem finish_foldl_feed_propertyComment_options :
    let x : Extractor := { file := "a.js", line := 7 }
    let c : PropertyComment :=
      { before := ["/** @prop S".toList]
        last := " */ ".toList
        opens := rfl
        notClosed := by decide
        closes := rfl
        nothingBehind := List.forall_mem_singleton.mpr rfl
        announces := ⟨_, List.mem_cons_self, rfl⟩ }
    let ds : List Text := ["s: ((".toList, "\x7d,)".toList, "a),".toList, "b,".toList]
    x.phase = .idle ∧ ((c.lines ++ ds).foldl feed x).finish.blocks =
      [⟨"@prop S\n ".toList ++ separatorLine ++ "s: ((".toList ++ separatorLine ++
        "\x7d,)".toList ++ separatorLine ++ "a),".toList, 8, 12, "a.js"⟩] := by
  intro x c ds
  have hx : x.phase = .idle := rfl
  have hclosed := (finish_foldl_feed_propertyComment hx c ds).2
  exact ⟨hx, (congrArg blocks hclosed).trans rfl⟩

end Extractor

end StyleGuide.Comment
