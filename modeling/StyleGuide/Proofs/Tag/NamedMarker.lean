import StyleGuide.Proofs.Tag.AuthorText

/-!
# The marker that is erased is the tag that was named

The name of a tag is read from the normal form of its line, and its marker is erased from the line
as it is written, wherever it occurs first. Both mean the same place: normal form or not, the name
is the word behind the first `@` (`nameOf_eq`), and nothing that starts with an `@` can occur before
that (`exists_markerAt`). So the first line of a tag is read without just this word
(`Tag.erased_marker_is_named`).
-/

namespace StyleGuide

open Text Comment

/-- Where a marker stands in a line: at the first `@` of the line, which is its first occurrence,
and as a whole word, that is with no blank in it and a blank or nothing behind it. -/
structure MarkerAt (line name before after : Text) : Prop where
  eq_append : line = before ++ ('@' :: name ++ after)
  atFirst : '@' ∉ before
  occursFirst : ∀ p q, line = p ++ ('@' :: name ++ q) → before <+: p
  noBlank : ∀ c ∈ name, isBlank c = false
  ends : ∀ c ∈ after.head?, isBlank c = true

/-- What starts with an `@` does not occur before the first one. -/
theorem prefix_of_append_eq {p q p' q' : Text} (hp : '@' ∉ p)
    (h : p ++ '@' :: q = p' ++ '@' :: q') : p <+: p' := by
  rcases List.append_eq_append_iff.mp h with ⟨more, rfl, -⟩ | ⟨more, rfl, hmore⟩
  · exact List.prefix_append p more
  · cases more with
    | nil => exact ⟨[], by simp⟩
    | cons c more =>
      obtain rfl := (List.cons.inj hmore).1
      exact absurd (by simp) hp

/-- A line that names a tag has its marker somewhere. -/
theorem exists_markerAt {line : Text} (h : Tag.nameOf line ≠ []) :
    ∃ before after, MarkerAt line (Tag.nameOf line) before after := by
  obtain ⟨before, after, hline, hfirst, hends⟩ := exists_eq_append_of_nameOf h
  refine ⟨before, after, hline, hfirst, ?_, fun c hc => not_isBlank_of_mem_nameOf hc, hends⟩
  intro p q hagain
  exact prefix_of_append_eq hfirst (hline.symm.trans hagain)

/-- Erasing the marker joins what stands around it. -/
theorem MarkerAt.eraseFirst_eq {line name before after : Text}
    (h : MarkerAt line name before after) :
    eraseFirst ('@' :: name) line = before ++ after := by
  rw [h.eq_append]
  exact eraseFirst_marker h.atFirst name after

namespace Tag

/-- The line that an index stands for; a negative one counts from the end. -/
def IsLineAt (lines : List Text) (index : Int) (line : Text) : Prop :=
  -(lines.length : Int) ≤ index ∧ lines[position lines.length index]? = some line

/-- The first line of a tag without its marker, and the lines below it. -/
theorem contentOf_marker {line name before after : Text} (h : MarkerAt line name before after)
    (more : List Text) : contentOf ('@' :: name) (line :: more) =
      unlines ((trim (stripStar (before ++ after)) :: more.map nextText).filter
        (keeps ('@' :: name))) := by
  rw [contentOf, firstText, h.eraseFirst_eq]
  rfl

/-- There is a tag on every line with a name, and its first line is that line. -/
theorem exists_readAt? {lines : List Text} {index : Int} {line : Text}
    (hline : IsLineAt lines index line) (hname : nameOf line ≠ []) :
    ∃ tag, readAt? lines index = some (some tag) ∧ tag.name = nameOf line ∧
      tag.content = contentOf ('@' :: nameOf line) (tag.span lines) ∧
      (tag.span lines = [] ∧ index < 0 ∨ ∃ more, tag.span lines = line :: more) := by
  have hne : ¬(nameOf line).isEmpty = true := mt List.isEmpty_iff.mp hname
  obtain ⟨hrange, hline⟩ := hline
  cases index with
  | ofNat n =>
    have hplace : lines[n]? = some line := position_natCast lines.length n ▸ hline
    obtain ⟨tag, htag⟩ : ∃ tag, read? n line (lines.drop (n + 1)) = some tag := by
      rw [read?, if_neg hne]
      exact ⟨_, rfl⟩
    obtain ⟨-, hsame, -, hcontent, hspan⟩ := span_of_read? hplace htag
    refine ⟨tag, ?_, hsame, hsame ▸ hcontent, .inr hspan⟩
    rw [readAt?, hplace, Option.map_some, htag]
  | negSucc n =>
    -- The search for the end goes on at the first line, so the end may come before the start.
    have hn : n < lines.length := by omega
    have hplace : lines[lines.length - (n + 1)]? = some line :=
      position_negSucc lines.length n ▸ hline
    obtain ⟨tag, htag⟩ : ∃ tag, readBack? lines (lines.length - (n + 1)) (n + 1) line =
        some tag := by
      rw [readBack?, if_neg hne]
      exact ⟨_, rfl⟩
    obtain ⟨-, hsame, -, hcontent, hspan⟩ := span_of_readBack? hn hplace htag
    refine ⟨tag, ?_, hsame, hsame ▸ hcontent, hspan.imp_left fun h => ⟨h, Int.negSucc_lt_zero n⟩⟩
    rw [readAt?, if_pos hn]
    dsimp only
    rw [hplace, Option.map_some, htag]

/-- **The marker that is erased is the tag that was named.** On every line with a tag the marker
occurs first at the first `@` of the line, and there it is a whole word. Wherever such a line
stands, the tag on it has this name, and what is read of its first line is the line without just
this word. -/
theorem erased_marker_is_named {line : Text} (hname : nameOf line ≠ []) :
    ∃ before after, MarkerAt line (nameOf line) before after ∧
      eraseFirst ('@' :: nameOf line) line = before ++ after ∧
      ∀ lines index, IsLineAt lines index line → ∃ tag, readAt? lines index = some (some tag) ∧
        tag.name = nameOf line ∧
        (tag.span lines = [] ∧ index < 0 ∧ tag.content = [] ∨
          ∃ more, tag.span lines = line :: more ∧
          tag.content = unlines ((trim (stripStar (before ++ after)) :: more.map nextText).filter
            (keeps ('@' :: nameOf line)))) := by
  obtain ⟨before, after, hmarker⟩ := exists_markerAt hname
  refine ⟨before, after, hmarker, hmarker.eraseFirst_eq, ?_⟩
  intro lines index hline
  obtain ⟨tag, hread, hsame, hcontent, hspan⟩ := exists_readAt? hline hname
  refine ⟨tag, hread, hsame, ?_⟩
  rcases hspan with ⟨hnone, hneg⟩ | ⟨more, hmore⟩
  · refine .inl ⟨hnone, hneg, ?_⟩
    rw [hcontent, hnone]
    rfl
  · refine .inr ⟨more, hmore, ?_⟩
    rw [hcontent, hmore, contentOf_marker hmarker]

/-- A name with an `@` in it, behind a star and text and before a wide space and another `@`. -/
theorem erased_marker_is_named_in_text :
    let line : Text := " * x @h@b\u3000@h ".toList
    nameOf line = "h@b".toList ∧ IsLineAt [line, ['y']] 0 line ∧
      ∃ before after, MarkerAt line (nameOf line) before after ∧
        eraseFirst ('@' :: nameOf line) line = before ++ after ∧
        ∃ tag, readAt? [line, ['y']] 0 = some (some tag) ∧ tag.name = nameOf line ∧
          ∃ more, tag.span [line, ['y']] = line :: more ∧
            tag.content = unlines ((trim (stripStar (before ++ after)) :: more.map nextText).filter
              (keeps ('@' :: nameOf line))) := by
  intro line
  have hname : nameOf line = "h@b".toList := by decide +kernel
  have hline : IsLineAt [line, ['y']] 0 line := ⟨by decide, rfl⟩
  obtain ⟨before, after, hmarker, herase, hread⟩ :=
    erased_marker_is_named (show nameOf line ≠ [] by simp [hname])
  obtain ⟨tag, htag, hsame, hnone | hfirst⟩ := hread [line, ['y']] 0 hline
  · exact absurd hnone.2.1 (by decide)
  · exact ⟨hname, hline, before, after, hmarker, herase, tag, htag, hsame, hfirst⟩

end Tag

end StyleGuide
