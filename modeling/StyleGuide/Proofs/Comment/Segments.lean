import StyleGuide.Comment.Extractor
import StyleGuide.Proofs.Comment.Markers

/-!
# The comments of a source as segments of its lines

Where no property is announced, the blocks of a source can be told from its lines as a whole: a run
of line comments is one block, a block comment is one from the line that opens it to the first one
that closes it, and all other lines are skipped. `segments` cuts the lines up in this way, without
any state, and `extract_eq_segments` says that the extractor finds the same blocks.

What the extractor holds in the middle of a comment depends on the lines of that comment only
(`inComment`, `inRun`). The lines that end it are followed by an extractor outside of comments, for
which the statement holds by induction.
-/

namespace StyleGuide.Comment

open Text

/-! ### Segments -/

def blockOf (file : Json) (text : Text) (start stop : Int) : List CommentBlock :=
  if (normalize text).isEmpty then [] else [⟨normalize text, start, stop, file⟩]

/-- The block comment at the start of some lines, up to the first line that closes it: its lines,
the closing one cut off at the marker, and the lines behind it. -/
def splitComment : List Text → List Text × List Text
  | [] => ([], [])
  | l :: ls =>
    if closesBlock l then ([(cut ['*', '/'] l).1], ls)
    else (l :: (splitComment ls).1, (splitComment ls).2)

/-- What is behind a comment is the end of the lines. -/
theorem splitComment_suffixOf (ls : List Text) : (splitComment ls).2 <:+ ls := by
  induction ls with
  | nil => exact List.suffix_rfl
  | cons l ls ih =>
    rw [splitComment]
    split
    · exact List.suffix_cons l ls
    · exact ih.trans (List.suffix_cons l ls)

theorem length_splitComment_lt (l : Text) (ls : List Text) :
    (splitComment (l :: ls)).2.length < (l :: ls).length := by
  rw [splitComment]
  split
  · exact Nat.lt_succ_self _
  · exact Nat.lt_succ_of_le (splitComment_suffixOf ls).length_le

theorem length_dropWhile_lt (l : Text) (ls : List Text) :
    (ls.dropWhile isLineComment).length < (l :: ls).length :=
  Nat.lt_succ_of_le (List.dropWhile_suffix isLineComment).length_le

/-- The blocks of lines of which the first one has the number `i`. A block of line comments ends
with the line behind them, if there is one. -/
def segments (file : Json) (i : Nat) : List Text → List CommentBlock
  | [] => []
  | l :: ls =>
    if opensBlock l then
      let comment := (splitComment (l :: ls)).1
      blockOf file (unlines (comment.map stripMarkers)) i (i + comment.length - 1) ++
        segments file (i + comment.length) (splitComment (l :: ls)).2
    else if isLineComment l then
      let run := l :: ls.takeWhile isLineComment
      let rest := ls.dropWhile isLineComment
      blockOf file (unlines (run.map lineCommentText)) i
          (if rest.isEmpty then i + run.length - 1 else i + run.length) ++
        segments file (i + run.length) rest
    else segments file (i + 1) ls
termination_by ls => ls.length
decreasing_by
  · exact length_splitComment_lt l ls
  · exact length_dropWhile_lt l ls
  · exact Nat.lt_succ_self _

/-- A comment is never closed, or it is closed by the first line that can. -/
theorem splitComment_cases (ls : List Text) :
    ((∀ l ∈ ls, closesBlock l = false) ∧ splitComment ls = (ls, [])) ∨
      ∃ before last rest, ls = before ++ last :: rest ∧ (∀ l ∈ before, closesBlock l = false) ∧
        closesBlock last = true ∧
          splitComment ls = (before ++ [(cut ['*', '/'] last).1], rest) := by
  induction ls with
  | nil => exact .inl ⟨by simp, rfl⟩
  | cons l ls ih =>
    rw [splitComment]
    by_cases hl : closesBlock l
    · rw [if_pos hl]
      exact .inr ⟨[], l, ls, rfl, by simp, hl, rfl⟩
    · rw [if_neg hl]
      have hl : closesBlock l = false := by simpa using hl
      rcases ih with ⟨hopen, hsplit⟩ | ⟨before, last, rest, rfl, hopen, hlast, hsplit⟩
      · exact .inl ⟨List.forall_mem_cons.mpr ⟨hl, hopen⟩, by rw [hsplit]⟩
      · exact .inr ⟨l :: before, last, rest, rfl, List.forall_mem_cons.mpr ⟨hl, hopen⟩, hlast,
          by rw [hsplit]; rfl⟩

/-! ### Pieces of an open block -/

/-- Every text but the first one behind a newline. -/
def behindNewlines : List Text → List Text
  | [] => []
  | t :: ts => t :: ts.map ('\n' :: ·)

theorem flatten_behindNewlines (ts : List Text) : (behindNewlines ts).flatten = unlines ts := by
  cases ts with
  | nil => rfl
  | cons t ts => rw [behindNewlines, List.flatten_cons, unlines_cons, List.flatMap_def]

theorem behindNewlines_append {ts : List Text} (hts : ts ≠ []) (t : Text) :
    behindNewlines (ts ++ [t]) = behindNewlines ts ++ ['\n' :: t] := by
  obtain ⟨u, us, rfl⟩ := List.exists_cons_of_ne_nil hts
  simp [behindNewlines]

namespace Extractor

variable {x : Extractor}

/-! ### Inside a block comment -/

/-- The extractor after some lines of a block comment that starts on the next line. -/
def inComment (x : Extractor) (comment : List Text) : Extractor :=
  { x with
    phase := if comment.any announcesProperty then .propertyComment else .blockComment
    parts := behindNewlines (comment.map stripMarkers)
    start := x.line + 1
    line := x.line + comment.length }

/-- A line that opens a comment is its first line, and may be its last. -/
theorem feed_opening (hx : x.phase = .idle) {l : Text} (hl : opensBlock l = true) :
    x.feed l =
      if closesBlock l then (x.inComment [(cut ['*', '/'] l).1]).endComment (cut ['*', '/'] l).2
      else x.inComment [l] := by
  have hadd : ∀ piece : Text, addComment
      { x with start := x.line + 1, parts := [], phase := .blockComment, line := x.line + 1 } []
        piece = x.inComment [piece] := by
    intro piece
    rw [addComment, inComment]
    by_cases hpiece : announcesProperty piece <;> simp [push, behindNewlines, hpiece]
  simp only [feed, hx, idleLine, hl, if_true, blockCommentLine, hadd]

/-- In a comment, lines are added up to the one that closes it. -/
theorem feed_inComment {comment : List Text} (hcomment : comment ≠ []) (l : Text) :
    (x.inComment comment).feed l =
      if closesBlock l then
        (x.inComment (comment ++ [(cut ['*', '/'] l).1])).endComment (cut ['*', '/'] l).2
      else x.inComment (comment ++ [l]) := by
  have hadd : ∀ piece : Text, addComment
      { x.inComment comment with line := x.line + comment.length + 1 } ['\n'] piece =
        x.inComment (comment ++ [piece]) := by
    intro piece
    have hne : comment.map stripMarkers ≠ [] := by simpa using hcomment
    rw [addComment, inComment, inComment, List.map_append, List.map_singleton,
      behindNewlines_append hne, List.any_append]
    by_cases hpiece : announcesProperty piece <;> simp [push, Nat.add_assoc, hpiece]
  have hfeed : (x.inComment comment).feed l =
      blockCommentLine { x.inComment comment with line := x.line + comment.length + 1 }
          ['\n'] l := by
    rw [feed, inComment]
    cases comment.any announcesProperty <;> rfl
  simp only [hfeed, blockCommentLine, hadd]

/-- Lines of a comment that do not close it are added to it. -/
theorem foldl_feed_inComment {comment : List Text} (hcomment : comment ≠ []) {ls : List Text}
    (hls : ∀ l ∈ ls, closesBlock l = false) :
    ls.foldl feed (x.inComment comment) = x.inComment (comment ++ ls) := by
  induction ls generalizing comment with
  | nil => rw [List.append_nil, List.foldl_nil]
  | cons l ls ih =>
    obtain ⟨hl, hrest⟩ := List.forall_mem_cons.mp hls
    rw [List.foldl_cons, feed_inComment hcomment, hl, if_neg Bool.false_ne_true, ih (by simp) hrest,
      List.append_assoc, List.singleton_append]

/-- A comment that is not closed. -/
theorem foldl_feed_unclosed (hx : x.phase = .idle) {l : Text} {ls : List Text}
    (hopens : opensBlock l = true) (hls : ∀ c ∈ l :: ls, closesBlock c = false) :
    (l :: ls).foldl feed x = x.inComment (l :: ls) := by
  obtain ⟨hl, hrest⟩ := List.forall_mem_cons.mp hls
  rw [List.foldl_cons, feed_opening hx hopens, hl, if_neg Bool.false_ne_true,
    foldl_feed_inComment (by simp) hrest, List.singleton_append]

/-- A comment up to the line that closes it. -/
theorem foldl_feed_closed (hx : x.phase = .idle) {before : List Text} {last : Text}
    (hopens : (before ++ [last]).head?.any opensBlock = true)
    (hbefore : ∀ l ∈ before, closesBlock l = false) (hlast : closesBlock last = true) :
    (before ++ [last]).foldl feed x =
      (x.inComment (before ++ [(cut ['*', '/'] last).1])).endComment (cut ['*', '/'] last).2 := by
  cases before with
  | nil => rw [List.nil_append, List.foldl_cons, feed_opening hx hopens, if_pos hlast]; rfl
  | cons l before =>
    rw [List.foldl_append, foldl_feed_unclosed hx hopens hbefore, List.foldl_cons, List.foldl_nil,
      feed_inComment (by simp), if_pos hlast]

/-- A comment is closed on its last line. -/
theorem blocks_emit_inComment (comment : List Text) :
    (x.inComment comment).emit.blocks = x.blocks ++
      blockOf x.file (unlines (comment.map stripMarkers)) (x.line + 1 : Nat)
        ((x.line + 1 : Nat) + comment.length - 1) := by
  have hstop : ((x.line + 1 : Nat) : Int) + comment.length - 1 =
      (x.line + comment.length : Nat) := by
    omega
  rw [hstop, ← flatten_behindNewlines]
  rfl

/-! ### Inside a run of line comments -/

/-- The extractor after some line comments of a run that starts on the next line. -/
def inRun (x : Extractor) (run : List Text) : Extractor :=
  { x with
    phase := .lineComment
    parts := behindNewlines (run.map lineCommentText)
    start := x.line + 1
    line := x.line + run.length }

/-- Line comments carry on a run of them. -/
theorem foldl_feed_inRun {run : List Text} (hrun : run ≠ []) {ls : List Text}
    (hls : ∀ l ∈ ls, isLineComment l = true) :
    ls.foldl feed (x.inRun run) = x.inRun (run ++ ls) := by
  induction ls generalizing run with
  | nil => rw [List.append_nil, List.foldl_nil]
  | cons l ls ih =>
    obtain ⟨hl, hrest⟩ := List.forall_mem_cons.mp hls
    have hne : run.map lineCommentText ≠ [] := by simpa using hrun
    have hfeed : (x.inRun run).feed l = x.inRun (run ++ [l]) := by
      rw [inRun, inRun, List.map_append, List.map_singleton, behindNewlines_append hne]
      simp [feed, lineCommentLine, hl, push, Nat.add_assoc]
    rw [List.foldl_cons, hfeed, ih (by simp) hrest, List.append_assoc, List.singleton_append]

theorem foldl_feed_run (hx : x.phase = .idle) {l : Text} {ls : List Text}
    (hopens : opensBlock l = false) (hrun : ∀ c ∈ l :: ls, isLineComment c = true) :
    (l :: ls).foldl feed x = x.inRun (l :: ls) := by
  obtain ⟨hl, hrest⟩ := List.forall_mem_cons.mp hrun
  have hfeed : x.feed l = x.inRun [l] := by
    simp [feed, hx, idleLine, hopens, hl, inRun, behindNewlines]
  rw [List.foldl_cons, hfeed, foldl_feed_inRun (by simp) hrest, List.singleton_append]

/-- A run of line comments is closed as one block, if anything is left of its text. -/
theorem blocks_emitAt_inRun (run : List Text) (stop : Int) :
    ((x.inRun run).emitAt stop).blocks = x.blocks ++
      blockOf x.file (unlines (run.map lineCommentText)) (x.line + 1 : Nat) stop := by
  rw [← flatten_behindNewlines]
  rfl

/-- The line behind a run closes its block, and is then read from outside. -/
theorem feed_inRun {l : Text} (hl : isLineComment l = false) (run : List Text) :
    (x.inRun run).feed l = ((x.inRun run).emitAt ((x.line + 1 : Nat) + run.length)).feed l := by
  have hstop : ((x.line + 1 : Nat) : Int) + run.length = (x.line + run.length + 1 : Nat) := by omega
  rw [hstop, feed, feed, inRun, emitAt]
  simp only [lineCommentLine, hl, Bool.false_eq_true, if_false]
  rfl

/-! ### All lines -/

theorem inComment_phase_of_silent {comment : List Text}
    (hcomment : ∀ l ∈ comment, announcesProperty l = false) :
    (x.inComment comment).phase = .blockComment := by
  have hany : comment.any announcesProperty = false := by
    rw [List.any_eq_false]
    intro l hl
    rw [hcomment l hl]
    exact Bool.false_ne_true
  rw [inComment, hany]
  rfl

/-- A comment that announces nothing becomes a block where it ends. -/
theorem finish_foldl_feed_comment (hx : x.phase = .idle) {l : Text} {ls : List Text}
    (hopens : opensBlock l = true) (hls : ∀ c ∈ l :: ls, announcesProperty c = false) :
    ((l :: ls).foldl feed x).finish =
      ((splitComment (l :: ls)).2.foldl feed
        (x.inComment (splitComment (l :: ls)).1).emit).finish := by
  rcases splitComment_cases (l :: ls) with
    ⟨hopen, hsplit⟩ | ⟨before, last, rest, hlines, hopen, hlast, hsplit⟩
  · have hphase := inComment_phase_of_silent (x := x) hls
    rw [hsplit, foldl_feed_unclosed hx hopens hopen, List.foldl_nil]
    simp [finish, hphase, emit, emitAt]
  · have hhead : (before ++ [last]).head?.any opensBlock = true := by
      have hfirst : (before ++ last :: rest).head?.any opensBlock = true := by
        rw [← hlines]
        exact hopens
      cases before <;> exact hfirst
    -- Nothing is announced in the comment, so its end closes the block.
    rw [hlines] at hls
    have hpieces : ∀ c ∈ before ++ [(cut ['*', '/'] last).1], announcesProperty c = false := by
      intro c hc
      rcases List.mem_append.mp hc with hc | hc
      · exact hls c (List.mem_append_left _ hc)
      · obtain rfl := List.mem_singleton.mp hc
        exact not_announcesProperty_cut (hls last (by simp))
    have hphase := inComment_phase_of_silent (x := x) hpieces
    rw [hsplit, hlines, List.append_cons, List.foldl_append, foldl_feed_closed hx hhead hopen hlast,
      endComment, if_neg (by simp [hphase])]

/-- A run of line comments becomes a block with the line behind it, or with the end of the lines. -/
theorem finish_foldl_feed_run (hx : x.phase = .idle) {l : Text} (ls : List Text)
    (hopens : opensBlock l = false) (hl : isLineComment l = true) :
    ((l :: ls).foldl feed x).finish =
      ((ls.dropWhile isLineComment).foldl feed
        ((x.inRun (l :: ls.takeWhile isLineComment)).emitAt
          (if (ls.dropWhile isLineComment).isEmpty then
            (x.line + 1 : Nat) + (l :: ls.takeWhile isLineComment).length - 1
          else (x.line + 1 : Nat) + (l :: ls.takeWhile isLineComment).length))).finish := by
  have hrun : ∀ c ∈ l :: ls.takeWhile isLineComment, isLineComment c = true :=
    List.forall_mem_cons.mpr ⟨hl, List.all_eq_true.mp List.all_takeWhile⟩
  have hfold : (l :: ls).foldl feed x =
      (ls.dropWhile isLineComment).foldl feed (x.inRun (l :: ls.takeWhile isLineComment)) := by
    rw [← foldl_feed_run hx hopens hrun, ← List.foldl_append, List.cons_append,
      List.takeWhile_append_dropWhile]
  rw [hfold]
  cases hrest : ls.dropWhile isLineComment with
  | nil =>
    have hstop : ((x.line + 1 : Nat) : Int) + (l :: ls.takeWhile isLineComment).length - 1 =
        (x.line + (l :: ls.takeWhile isLineComment).length : Nat) := by omega
    rw [List.isEmpty_nil, if_pos rfl, hstop]
    rfl
  | cons r rest =>
    have hr : isLineComment r = false := by
      have h := List.head?_dropWhile_not isLineComment ls
      rw [hrest] at h
      simpa using h
    rw [List.foldl_cons, List.foldl_cons, feed_inRun hr]
    rfl

/-- Outside of comments, a line without one is only counted. -/
theorem feed_skipped (hx : x.phase = .idle) {l : Text} (hopens : opensBlock l = false)
    (hl : isLineComment l = false) : x.feed l = { x with line := x.line + 1 } := by
  simp [feed, hx, idleLine, hopens, hl]

/-- From outside of comments, the extractor adds the blocks of the segments to those that it has. -/
theorem finish_foldl_feed_blocks (hx : x.phase = .idle) {ls : List Text}
    (hls : ∀ l ∈ ls, announcesProperty l = false) :
    (ls.foldl feed x).finish.blocks = x.blocks ++ segments x.file (x.line + 1) ls := by
  -- The lines behind a comment are fewer, and the extractor is outside of comments again there.
  induction hn : ls.length using Nat.strongRecOn generalizing x ls with
  | ind n ih =>
    subst hn
    cases ls with
    | nil => rw [List.foldl_nil, finish, if_pos hx, segments, List.append_nil]
    | cons l ls =>
      rw [segments]
      dsimp only
      by_cases hopens : opensBlock l
      · have hrest : ∀ c ∈ (splitComment (l :: ls)).2, announcesProperty c = false :=
          fun c hc => hls c ((splitComment_suffixOf _).subset hc)
        rw [if_pos hopens, finish_foldl_feed_comment hx hopens hls,
          ih _ (length_splitComment_lt l ls) rfl hrest rfl, blocks_emit_inComment,
          List.append_assoc, Nat.add_right_comm x.line 1]
        rfl
      · rw [if_neg hopens]
        have hopens : opensBlock l = false := by simpa using hopens
        by_cases hl : isLineComment l
        · have hrest : ∀ c ∈ ls.dropWhile isLineComment, announcesProperty c = false :=
            fun c hc => hls c (List.mem_cons_of_mem l ((List.dropWhile_suffix _).subset hc))
          rw [if_pos hl, finish_foldl_feed_run hx ls hopens hl,
            ih _ (length_dropWhile_lt l ls) rfl hrest rfl, blocks_emitAt_inRun, List.append_assoc,
            Nat.add_right_comm x.line 1]
          rfl
        · rw [if_neg hl, List.foldl_cons, feed_skipped hx hopens (by simpa using hl)]
          exact ih _ (Nat.lt_succ_self _) (x := { x with line := x.line + 1 }) hx
            (List.forall_mem_cons.mp hls).2 rfl

end Extractor

/-- **Segments.** If no line of a text announces a property, then the blocks of the text are those
of its segments. -/
theorem extract_eq_segments (file : Json) {text : Text}
    (htext : ∀ l ∈ sourceLines text, announcesProperty l = false) :
    extract file text = segments file 1 (sourceLines text) := by
  have hblocks := Extractor.finish_foldl_feed_blocks (x := { file }) rfl htext
  simpa [extract, scan] using hblocks

/-- A run with code behind it, a block comment that a line comment does not close, a longer word,
and a comment that is never closed. -/
theorem extract_eq_segments_unclosed :
    let text := "//a\n // b\nc;\n/** d\n//*/\n* e*/ f\n//\n/* @props".toList
    (∀ l ∈ sourceLines text, announcesProperty l = false) ∧
      extract "a.js" text = segments "a.js" 1 (sourceLines text) ∧
      segments "a.js" 1 (sourceLines text) =
        [⟨"a\n b".toList, 1, 3, "a.js"⟩, ⟨"d\n//\n* e".toList, 4, 6, "a.js"⟩,
         ⟨"@props".toList, 8, 8, "a.js"⟩] := by
  intro text
  have htext : ∀ l ∈ sourceLines text, announcesProperty l = false := by decide
  have hsegments := extract_eq_segments "a.js" htext
  exact ⟨htext, hsegments, hsegments.symm.trans rfl⟩

end StyleGuide.Comment
