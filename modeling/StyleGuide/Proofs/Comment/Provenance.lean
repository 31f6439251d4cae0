import StyleGuide.Comment.Extractor
import StyleGuide.Proofs.Comment.Markers
import StyleGuide.Proofs.Text.Words

/-!
# Where the lines of a block come from

Every line of a comment block is a piece of a source line, with or without its comment markers, or
it is the separator that the extractor puts in (`traced_of_mem_extract`). Nothing else gets into a
block, and no two source lines are joined in one line of a block.

The invariant speaks of all pieces of the open block that have no newline. That way it does not
matter where exactly a line of the block starts and ends: only that the extractor never puts two
pieces side by side without a newline between them (`Traces.ends`).
-/

namespace StyleGuide.Comment

open Text

/-- The text is a piece of the separator on its line, of a source line, or of what is left of a
piece of a source line without its markers. -/
inductive Traced (source : List Text) (t : Text) : Prop
  | separator : t <:+: [' '] ++ separator ++ [' '] → Traced source t
  | code {line : Text} : line ∈ source → t <:+: line → Traced source t
  | comment {line piece : Text} : line ∈ source → piece <:+: line → t <:+: stripMarkers piece →
      Traced source t

/-- Every piece of the text that has no newline is traced. -/
def AllTraced (source : List Text) (t : Text) : Prop :=
  ∀ u, '\n' ∉ u → u <:+: t → Traced source u

variable {source : List Text} {t u : Text}

theorem Traced.mono (ht : Traced source t) (hu : u <:+: t) : Traced source u := by
  cases ht with
  | separator h => exact .separator (hu.trans h)
  | code hline h => exact .code hline (hu.trans h)
  | comment hline hpiece h => exact .comment hline hpiece (hu.trans h)

namespace AllTraced

theorem of_traced (ht : Traced source t) : AllTraced source t := fun _ _ hu => ht.mono hu

theorem nil : AllTraced source [] := of_traced (.separator List.nil_infix)

theorem mono (ht : AllTraced source t) (hu : u <:+: t) : AllTraced source u :=
  fun v hv h => ht v hv (h.trans hu)

/-- Traced texts on lines of their own are traced. -/
theorem append_newline (ht : AllTraced source t) (hu : AllTraced source u) :
    AllTraced source (t ++ '\n' :: u) := by
  intro v hv h
  rcases (infix_append_cons_iff hv).mp h with h | h
  · exact ht v hv h
  · exact hu v hv h

/-- The separator is the only line that the extractor adds. -/
theorem append_separatorLine (ht : AllTraced source t) : AllTraced source (t ++ separatorLine) := by
  have hseparator : AllTraced source ([' '] ++ separator ++ [' ']) :=
    of_traced (.separator List.infix_rfl)
  exact ht.append_newline (hseparator.append_newline nil)

end AllTraced

namespace Extractor

/-- What the extractor has found is traced, and so is the open block. In a declaration the open
block ends with a newline. -/
structure Traces (source : List Text) (x : Extractor) : Prop where
  blocks : ∀ b ∈ x.blocks, AllTraced source b.text
  parts : AllTraced source x.parts.flatten
  ends : x.phase = .declaration ∨ x.phase = .options → ['\n'] <:+ x.parts.flatten

namespace Traces

variable {x : Extractor} {line : Text}

/-- A closed block is traced if the open one was. -/
theorem emitAt (hblocks : ∀ b ∈ x.blocks, AllTraced source b.text)
    (hparts : AllTraced source x.parts.flatten) (stop : Int) : Traces source (x.emitAt stop) where
  blocks := by
    intro b hb
    rcases List.mem_append.mp hb with hb | hb
    · exact hblocks b hb
    · split at hb
      · simp at hb
      · obtain rfl := List.mem_singleton.mp hb
        have hnormalize : normalize x.parts.flatten <:+: x.parts.flatten :=
          (dropEndWhile_prefixOf isBlank _).isInfix.trans (List.dropWhile_suffix _).isInfix
        exact hparts.mono hnormalize
  parts := .nil
  ends := by simp [Extractor.emitAt]

/-- A piece that is added to a block that ends with a newline. -/
theorem parts_push (h : Traces source x) (hends : ['\n'] <:+ x.parts.flatten)
    (ht : AllTraced source t) : AllTraced source (x.push t).parts.flatten := by
  obtain ⟨lead, hlead⟩ := hends
  have hparts : (x.push t).parts.flatten = lead ++ '\n' :: t := by
    rw [push, List.flatten_append, ← hlead]
    simp
  rw [hparts]
  exact (h.parts.mono ⟨[], ['\n'], hlead⟩).append_newline ht

/-- A separator that is added to a block, which may then be in another phase. -/
theorem push_separatorLine (hblocks : ∀ b ∈ x.blocks, AllTraced source b.text)
    (hparts : AllTraced source x.parts.flatten) (depth : Int) (phase : Phase) :
    Traces source { x.push separatorLine with depth, phase } where
  blocks := hblocks
  parts := by
    have h := hparts.append_separatorLine
    simpa [push] using h
  ends _ := by
    refine ⟨x.parts.flatten ++ ['\n', ' '] ++ separator ++ [' '], ?_⟩
    simp [push, separatorLine]

/-- Code of a declaration is a piece of its line. -/
theorem declarationCode (h : Traces source x) (hends : ['\n'] <:+ x.parts.flatten)
    (hline : line ∈ source) {code : Text} (hcode : code <:+: line) :
    Traces source (x.declarationCode code) := by
  have hparts : AllTraced source (x.push (stripMarkers code)).parts.flatten :=
    h.parts_push hends (.of_traced (.comment hline hcode List.infix_rfl))
  unfold Extractor.declarationCode
  dsimp only
  split
  · exact push_separatorLine (x := x.push (stripMarkers code)) h.blocks hparts _ _
  · split
    · exact emitAt (x := x.push (stripMarkers code)) h.blocks hparts _
    · exact push_separatorLine (x := x.push (stripMarkers code)) h.blocks hparts _ _

/-- A piece of a comment comes behind a newline, or first. -/
theorem addComment (h : Traces source x) (hline : line ∈ source) {lead comment : Text}
    (hcomment : comment <:+: line) (hlead : lead = ['\n'] ∨ lead = [] ∧ x.parts = [])
    (hphase : ¬(x.phase = .declaration ∨ x.phase = .options)) :
    Traces source (x.addComment lead comment) := by
  have htext : AllTraced source (stripMarkers comment) :=
    .of_traced (.comment hline hcomment List.infix_rfl)
  have hparts : AllTraced source (x.push (lead ++ stripMarkers comment)).parts.flatten := by
    -- A comment line comes behind a newline, but for the first one of its block.
    rcases hlead with rfl | ⟨rfl, hnil⟩
    · simpa [push] using h.parts.append_newline htext
    · simpa [push, hnil] using htext
  unfold Extractor.addComment
  dsimp only
  split
  · exact ⟨h.blocks, hparts, by simp⟩
  · exact ⟨h.blocks, hparts, fun hends => absurd hends hphase⟩

theorem endComment (h : Traces source x) (hline : line ∈ source) {code : Text}
    (hcode : code <:+: line) : Traces source (x.endComment code) := by
  unfold Extractor.endComment
  split
  · have hdeclaration := push_separatorLine h.blocks h.parts x.depth .declaration
    dsimp only
    split
    · exact hdeclaration
    · exact hdeclaration.declarationCode (hdeclaration.ends (.inl rfl)) hline hcode
  · exact emitAt h.blocks h.parts _

theorem blockCommentLine (h : Traces source x) (hline : line ∈ source) {lead : Text}
    (hlead : lead = ['\n'] ∨ lead = [] ∧ x.parts = [])
    (hphase : ¬(x.phase = .declaration ∨ x.phase = .options)) :
    Traces source (x.blockCommentLine lead line) := by
  have hcut : (cut ['*', '/'] line).1 <:+: line ∧ (cut ['*', '/'] line).2 <:+: line := by
    rcases cut_cases ['*', '/'] line with hcut | hcut
    · rw [hcut]
      exact ⟨List.infix_rfl, List.nil_infix⟩
    · conv => rhs; rhs; rw [hcut]
      conv => lhs; rhs; rw [hcut]
      exact ⟨(List.prefix_append _ _).isInfix.trans (List.prefix_append _ _).isInfix,
        (List.suffix_append _ _).isInfix⟩
  unfold Extractor.blockCommentLine
  split
  · exact (h.addComment hline hcut.1 hlead hphase).endComment hline hcut.2
  · exact h.addComment hline List.infix_rfl hlead hphase

theorem idleLine (h : Traces source x) (hline : line ∈ source) :
    Traces source (x.idleLine line) := by
  unfold Extractor.idleLine
  split
  · have hopen : Traces source { x with start := x.line, parts := [], phase := .blockComment } :=
      ⟨h.blocks, .nil, by simp⟩
    exact hopen.blockCommentLine hline (.inr ⟨rfl, rfl⟩) (by simp)
  · split
    · refine ⟨h.blocks, ?_, by simp⟩
      simpa using AllTraced.of_traced (.code hline (lineCommentText_infixOf line))
    · exact h

theorem lineCommentLine (h : Traces source x) (hline : line ∈ source)
    (hphase : ¬(x.phase = .declaration ∨ x.phase = .options)) :
    Traces source (x.lineCommentLine line) := by
  unfold Extractor.lineCommentLine
  split
  · refine ⟨h.blocks, ?_, fun hends => absurd hends hphase⟩
    have htext := AllTraced.of_traced (.code hline (lineCommentText_infixOf line))
    simpa [push] using h.parts.append_newline htext
  · exact (emitAt h.blocks h.parts _).idleLine hline

/-- What a line adds to a declaration is traced to it, or is the separator. -/
theorem declarationLine (h : Traces source x) (hline : line ∈ source)
    (hphase : x.phase = .declaration) : Traces source (x.declarationLine line) := by
  have hparts : AllTraced source
      (if x.parts.getLast? = some separatorLine then x.parts.dropLast else x.parts).flatten := by
    split
    · -- The separator that is taken back was the last piece.
      obtain ⟨rest, hrest⟩ := List.dropLast_prefix x.parts
      exact h.parts.mono ⟨[], rest.flatten, by rw [List.nil_append, ← List.flatten_append, hrest]⟩
    · exact h.parts
  unfold Extractor.declarationLine
  dsimp only
  split
  · exact (emitAt h.blocks h.parts _).idleLine hline
  · split
    · exact emitAt (x := { x with
        parts := if x.parts.getLast? = some separatorLine then x.parts.dropLast else x.parts })
        h.blocks hparts _
    · exact h.declarationCode (h.ends (.inl hphase)) hline List.infix_rfl

theorem optionsLine (h : Traces source x) (hline : line ∈ source)
    (hphase : x.phase = .options) : Traces source (x.optionsLine line) := by
  have hparts : AllTraced source (x.push line).parts.flatten :=
    h.parts_push (h.ends (.inr hphase)) (.of_traced (.code hline List.infix_rfl))
  unfold Extractor.optionsLine
  dsimp only
  split
  · exact emitAt (x := { x.push line with depth := _ }) h.blocks hparts _
  · exact push_separatorLine (x := x.push line) h.blocks hparts _ _

/-- **One line.** Reading a source line keeps all traced. -/
theorem feed (h : Traces source x) (hline : line ∈ source) : Traces source (x.feed line) := by
  have hnext : Traces source { x with line := x.line + 1 } := ⟨h.blocks, h.parts, h.ends⟩
  unfold Extractor.feed
  dsimp only
  split
  · exact hnext.idleLine hline
  · next hphase => exact hnext.lineCommentLine hline (by simp [hphase])
  · next hphase => exact hnext.blockCommentLine hline (.inl rfl) (by simp [hphase])
  · next hphase => exact hnext.blockCommentLine hline (.inl rfl) (by simp [hphase])
  · next hphase => exact hnext.declarationLine hline hphase
  · next hphase => exact hnext.optionsLine hline hphase

/-- **A run.** -/
theorem foldl_feed (h : Traces source x) {ls : List Text} (hls : ls ⊆ source) :
    Traces source (ls.foldl Extractor.feed x) := by
  induction ls generalizing x with
  | nil => exact h
  | cons l ls ih =>
    obtain ⟨hl, hrest⟩ := List.cons_subset.mp hls
    exact ih (h.feed hl) hrest

end Traces

end Extractor

/-- Every line of a block is traced to the lines of the source. -/
theorem traced_of_mem_extract {file : Json} {text : Text} {block : CommentBlock}
    (hblock : block ∈ extract file text) {line : Text} (hline : line ∈ lines block.text) :
    Traced (sourceLines text) line := by
  have hscan : Extractor.Traces (sourceLines text) (scan file text) :=
    Extractor.Traces.foldl_feed ⟨by simp, .nil, by simp⟩ (List.Subset.refl _)
  have hfinish : Extractor.Traces (sourceLines text) (scan file text).finish := by
    unfold Extractor.finish
    split
    · exact hscan
    · exact Extractor.Traces.emitAt hscan.blocks hscan.parts _
  exact hfinish.blocks block hblock line (notMem_of_mem_splitAt hline) (infix_of_mem_splitAt hline)

end StyleGuide.Comment
