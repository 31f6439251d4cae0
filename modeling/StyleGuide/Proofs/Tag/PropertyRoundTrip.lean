import StyleGuide.Proofs.Comment.PropertyBlock
import StyleGuide.Proofs.Tag.Standard

/-!
# A documented property is read back

The tag reader takes the block of a documented property apart again: the comment gives the
description and the default, the lines behind the separators are put together to the declaration,
and the declaration gives the name and the type. The statement about whole sources is
`ofSource_documentedProperty`.
-/

namespace StyleGuide

open Text Comment Handler

/-! ### The lines of the block -/

/-- The last line of a declaration is not blank. -/
theorem EndsDeclaration.visible_last {ls : List Text} {l : Text} (h : EndsDeclaration (ls ++ [l])) :
    ∃ c ∈ l, isBlank c = false := by
  rcases h with ⟨l', hl, hcomma, -⟩ | ⟨hlen, hopen, hclose⟩
  · obtain rfl : l = l' := by simpa using congrArg List.getLast? hl
    exact ⟨',', hcomma, by decide⟩
  · -- Before the last line some parenthesis is open, so the last line closes one.
    have hinit := hopen ls.length (by simpa using hlen) (by simp)
    rw [List.take_left] at hinit
    rw [List.flatten_append, List.flatten_singleton, parenBalance_append] at hclose
    have hcount : 0 < l.count ')' := by
      have hlast : parenBalance l < 0 := by omega
      unfold parenBalance at hlast
      omega
    exact ⟨')', List.count_pos_iff.mp hcount, by decide⟩

/-- Blanks at the end of a text are blanks at the end of its last line. -/
theorem lines_trimEnd_unlines {ls : List Text} {l : Text} (hls : ∀ u ∈ ls ++ [l], '\n' ∉ u)
    (hl : ∃ c ∈ l, isBlank c = false) :
    lines (trimEnd (unlines (ls ++ [l]))) = ls ++ [trimEnd l] := by
  have hsplit : ∃ lead : Text, ∀ u, unlines (ls ++ [u]) = lead ++ u := by
    cases ls with
    | nil => exact ⟨[], fun u => rfl⟩
    | cons t ts =>
      refine ⟨t ++ ts.flatMap ('\n' :: ·) ++ ['\n'], fun u => ?_⟩
      rw [List.cons_append, unlines_cons]
      simp
  obtain ⟨lead, hlead⟩ := hsplit
  rw [hlead, trimEnd_append hl, ← hlead]
  apply lines_unlines (by simp)
  intro u hu
  rcases List.mem_append.mp hu with hu | hu
  · exact hls u (List.mem_append_left _ hu)
  · obtain rfl := List.mem_singleton.mp hu
    intro hmem
    exact hls l (by simp) ((dropEndWhile_prefixOf isBlank l).subset hmem)

namespace DocumentedProperty

variable (p : DocumentedProperty)

/-- The lines of the block are its tag, a blank line and the lines of the declaration behind
separators, but for blanks at the end of the last one. -/
theorem exists_lines_block : ∃ ls, ls ≠ [] ∧ (∀ l ∈ ls, IsPlain l) ∧
    ls.map trim = p.declarationLines.map trim ∧
    lines (trimEnd (unlines p.blockLines)) = p.tag :: [' '] :: withSeparators ls := by
  have hplain : ∀ l ∈ p.declarationLines, IsPlain l := p.isPlain_of_mem
  have hends : EndsDeclaration p.declarationLines := p.endsDeclaration
  have hne : p.declarationLines ≠ [] := by simp [declarationLines]
  rw [blockLines]
  generalize p.declarationLines = ls at *
  -- Blanks at the end of the text are those of the last line, which is not blank.
  obtain ⟨init, last, rfl⟩ : ∃ init last, ls = init ++ [last] :=
    ⟨_, _, (List.dropLast_concat_getLast hne).symm⟩
  refine ⟨init ++ [trimEnd last], by simp, ?_, ?_, ?_⟩
  · intro l hl
    rcases List.mem_append.mp hl with hl | hl
    · exact hplain l (List.mem_append_left _ hl)
    · obtain rfl := List.mem_singleton.mp hl
      exact (hplain last (by simp)).mono (dropEndWhile_prefixOf isBlank last).isInfix
  · have htrim : trim (trimEnd last) = trim last := trim_dropEndWhile (fun _ h => h) last
    simp [htrim]
  · have hsplit : ∀ l, p.tag :: [' '] :: withSeparators (init ++ [l]) =
        (p.tag :: [' '] :: withSeparators init ++ [[' '] ++ separator ++ [' ']]) ++ [l] := by
      intro l
      simp [withSeparators]
    rw [hsplit, hsplit]
    apply lines_trimEnd_unlines
    · intro u hu
      rw [← hsplit] at hu
      simp only [withSeparators, List.mem_cons, List.mem_flatMap] at hu
      rcases hu with rfl | rfl | ⟨l, hl, rfl | rfl | hu⟩
      · rw [tag_eq]
        simp [p.isLabel_description.newline, p.isLabel_fallback.newline]
      · decide
      · decide
      · exact (hplain _ hl).newline
      · simp at hu
    · exact hends.visible_last

end DocumentedProperty

/-! ### Lines below a tag -/

namespace IsBare

variable {t : Text}

/-- A bare line has no decoration but blanks. -/
theorem normalize_eq (ht : IsBare t) : normalize t = trim t := normalize_eq_trim ht.star

theorem nextText_eq (ht : IsBare t) : Tag.nextText t = trimEnd t := by
  rw [Tag.nextText, stripStar_of_notMem ht.star]

theorem not_startsTag (ht : IsBare t) : Tag.startsTag t = false := by
  rw [Tag.startsTag, decide_eq_false_iff_not, ht.normalize_eq]
  intro hhead
  apply ht.tag
  exact (trim_infixOf t).subset (List.mem_of_mem_head? hhead)

end IsBare

theorem isBare_separatorLine : IsBare ([' '] ++ separator ++ [' ']) :=
    ⟨by decide, by decide, by decide⟩

/-- No line of the block but the first has a star or a tag. -/
theorem isBare_of_mem_withSeparators {ls : List Text} (hls : ∀ l ∈ ls, IsPlain l) {l : Text}
    (hl : l ∈ withSeparators ls) : IsBare l := by
  simp only [withSeparators, List.mem_flatMap, List.mem_cons, List.not_mem_nil, or_false] at hl
  obtain ⟨u, hu, rfl | rfl⟩ := hl
  · exact isBare_separatorLine
  · exact (hls _ hu).toIsBare

/-- What a line of a declaration adds to the content of its tag. -/
def declarationPart (l : Text) : Text := if (trim l).isEmpty then [] else '\n' :: trimEnd l

theorem trimEnd_ne_nil {l : Text} (hl : (trim l).isEmpty = false) : trimEnd l ≠ [] := by
  intro h
  have hblank := dropEndWhile_eq_nil_iff.mp h
  rw [trim_eq_nil_iff.mpr hblank] at hl
  cases hl

/-- The lines behind separators, as they are added to the content of a tag. -/
theorem flatMap_nextText_withSeparators {ls : List Text} (hls : ∀ l ∈ ls, IsPlain l) :
    (((withSeparators ls).filter isShown).map Tag.nextText).flatMap ('\n' :: ·) =
      ls.flatMap fun l => ['\n', ' '] ++ (separator ++ declarationPart l) := by
  induction ls with
  | nil => rfl
  | cons l ls ih =>
    obtain ⟨hl, hrest⟩ := List.forall_mem_cons.mp hls
    have hseparator : isShown ([' '] ++ separator ++ [' ']) = true := by decide
    have htext : Tag.nextText ([' '] ++ separator ++ [' ']) = [' '] ++ separator := by decide
    rw [List.flatMap_cons, ← ih hrest, withSeparators, List.flatMap_cons, List.filter_append,
      List.map_append, List.flatMap_append, withSeparators]
    congr 1
    rw [List.filter_cons_of_pos hseparator, List.map_cons, htext]
    by_cases hblank : (trim l).isEmpty = true
    · have hshown : isShown l = false := by
        rw [isShown, hl.normalize_eq, hblank]
        rfl
      simp [hshown, declarationPart, hblank]
    · rw [Bool.not_eq_true] at hblank
      have hshown : isShown l = true := by
        rw [isShown, hl.normalize_eq, hblank]
        rfl
      simp [hshown, declarationPart, hblank, hl.nextText_eq]

namespace DocumentedProperty

variable (p : DocumentedProperty)

/-! ### The line of the tag -/

/-- The description and the default behind the tag. -/
theorem visible_labels :
    ∃ c ∈ p.description ++ [' ', '|', ' '] ++ p.fallback, isBlank c = false := by
  obtain ⟨c, hc, hblank⟩ := p.isLabel_fallback.visible
  exact ⟨c, List.mem_append_right _ hc, hblank⟩

theorem normalize_tag : normalize p.tag = ['@', 'p', 'r', 'o', 'p', ' '] ++
    trimEnd (p.description ++ [' ', '|', ' '] ++ p.fallback) := by
  rw [tag_eq, ← trimEnd_append p.visible_labels]
  rfl

theorem nameOf_tag : Tag.nameOf p.tag = ['p', 'r', 'o', 'p'] := by
  rw [Tag.nameOf, normalize_tag]
  rfl

theorem isShown_tag : isShown p.tag = true := by
  rw [isShown, normalize_tag]
  rfl

def doc : Text := trimStart p.description ++ [' ', '|', ' '] ++ trimEnd p.fallback

theorem notMem_tag_doc : '@' ∉ p.doc := by
  have hdescription : '@' ∉ trimStart p.description := fun h =>
    p.isLabel_description.tag ((List.dropWhile_suffix isBlank).subset h)
  have hfallback : '@' ∉ trimEnd p.fallback := fun h =>
    p.isLabel_fallback.tag ((dropEndWhile_prefixOf isBlank _).subset h)
  simp [doc, hdescription, hfallback]

/-- What is kept of the first line is what the comment says. -/
theorem firstText_tag : Tag.firstText ['@', 'p', 'r', 'o', 'p'] p.tag = p.doc := by
  have hcut : cut? ['@', 'p', 'r', 'o', 'p'] p.tag =
      some ([], ' ' :: (p.description ++ [' ', '|', ' '] ++ p.fallback)) := by
    rw [tag_eq]
    exact cut?_append_of_notMem (p := []) (a := []) (b := ['p', 'r', 'o', 'p']) (by decide)
      (by decide)
  have hstar : '*' ∉ ' ' :: (p.description ++ [' ', '|', ' '] ++ p.fallback) := by
    simp [p.isLabel_description.star, p.isLabel_fallback.star]
  rw [Tag.firstText, eraseFirst, cut, hcut, Option.getD_some, List.nil_append,
    stripStar_of_notMem hstar]
  calc trim (' ' :: (p.description ++ [' ', '|', ' '] ++ p.fallback))
      = trim (p.description ++ [' ', '|', ' '] ++ p.fallback) :=
        trim_append_left (p := [' ']) (by simp)
    _ = trimEnd (trimStart p.description ++ ([' ', '|', ' '] ++ p.fallback)) := by
        rw [trim, List.append_assoc, trimStart_append p.isLabel_description.visible]
    _ = p.doc := by
        rw [← List.append_assoc, trimEnd_append p.isLabel_fallback.visible, doc]

theorem doc_ne_nil : p.doc ≠ [] := by
  simp [doc]

/-- The content of the tag: the comment, and the lines of the declaration behind separators. -/
def content (ls : List Text) : Text :=
  p.doc ++ ls.flatMap fun l => ['\n', ' '] ++ (separator ++ declarationPart l)

/-- The content of the tag is the comment and the declaration behind separators. -/
theorem contentOf_tag {ls : List Text} (hls : ∀ l ∈ ls, IsPlain l) :
    Tag.contentOf ['@', 'p', 'r', 'o', 'p'] (p.tag :: (withSeparators ls).filter isShown) =
      p.content ls := by
  have hhas : ∀ t : Text, '@' ∉ t → has ['@', 'p', 'r', 'o', 'p'] t = false := by
    intro t ht
    rw [Bool.eq_false_iff, Ne, has_iff]
    exact fun h => ht (h.subset (by simp))
  have hkept : ∀ t ∈ p.doc :: ((withSeparators ls).filter isShown).map Tag.nextText,
      (!t.isEmpty && !has ['@', 'p', 'r', 'o', 'p'] t) = true := by
    intro t ht
    rcases List.mem_cons.mp ht with rfl | ht
    · simp [p.doc_ne_nil, hhas _ p.notMem_tag_doc]
    · obtain ⟨l, hl, rfl⟩ := List.mem_map.mp ht
      obtain ⟨hl, hshown⟩ := List.mem_filter.mp hl
      have hbare := isBare_of_mem_withSeparators hls hl
      have htag : '@' ∉ trimEnd l := fun h => hbare.tag ((dropEndWhile_prefixOf isBlank l).subset h)
      have hne : trimEnd l ≠ [] := by
        apply trimEnd_ne_nil
        simpa [isShown, hbare.normalize_eq] using hshown
      rw [hbare.nextText_eq]
      simp [hne, hhas _ htag]
  rw [Tag.contentOf, firstText_tag, List.filter_eq_self.mpr hkept, unlines_cons,
    flatMap_nextText_withSeparators hls, content]

theorem read?_tag {ls : List Text} (hls : ∀ l ∈ ls, IsPlain l) :
    ∃ stop, Tag.read? 0 p.tag ((withSeparators ls).filter isShown) =
      some ⟨['p', 'r', 'o', 'p'], p.content ls, 0, stop⟩ := by
  have hmore : ((withSeparators ls).filter isShown).takeWhile (!Tag.startsTag ·) =
      (withSeparators ls).filter isShown := by
    rw [List.takeWhile_eq_self_iff]
    intro l hl
    rw [(isBare_of_mem_withSeparators hls (List.mem_filter.mp hl).1).not_startsTag]
    rfl
  rw [Tag.read?, nameOf_tag]
  dsimp only
  rw [hmore, p.contentOf_tag hls]
  exact ⟨_, rfl⟩

/-! ### The parts of the property -/

theorem not_separator_declarationPart {l : Text} (hl : IsPlain l) :
    ¬separator <:+: declarationPart l := by
  rw [declarationPart]
  split
  · exact fun h => absurd (List.infix_nil.mp h) (by decide)
  · rw [infix_cons_iff_of_notMem (by decide) (by decide)]
    exact fun h => hl.separator (h.trans (dropEndWhile_prefixOf isBlank l).isInfix)

theorem trim_declarationPart (l : Text) : trim (declarationPart l) = trim l := by
  rw [declarationPart]
  split
  · next h => rw [List.isEmpty_iff.mp h]; rfl
  · rw [show '\n' :: trimEnd l = ['\n'] ++ trimEnd l from rfl, trim_append_left (by simp)]
    exact trim_dropEndWhile (fun _ h => h) l

/-- The lines are found again between the separators. -/
theorem flatten_trim_splitOn {l : Text} {ls : List Text} (hls : ∀ u ∈ l :: ls, IsPlain u) :
    ((splitOn separator (declarationPart l ++
      ls.flatMap fun u => ['\n', ' '] ++ (separator ++ declarationPart u))).map trim).flatten =
      ((l :: ls).map trim).flatten := by
  -- The first separator ends the part of the first line; the rest has the same form.
  induction ls generalizing l with
  | nil =>
    have hl := not_separator_declarationPart (hls l List.mem_cons_self)
    rw [List.flatMap_nil, List.append_nil, splitOn_of_lacks hl]
    simp [trim_declarationPart]
  | cons u ls ih =>
    obtain ⟨hl, hrest⟩ := List.forall_mem_cons.mp hls
    have hlead : ¬separator <:+: declarationPart l ++ ['\n', ' '] := by
      rw [infix_append_cons_iff (by decide), not_or]
      exact ⟨not_separator_declarationPart hl, by decide⟩
    have hcut := cut?_append_of_unbordered
      (q := declarationPart u ++ ls.flatMap fun u => ['\n', ' '] ++
        (separator ++ declarationPart u))
      (by decide) hlead
    have htext : declarationPart l ++
        (u :: ls).flatMap (fun u => ['\n', ' '] ++ (separator ++ declarationPart u)) =
        declarationPart l ++ ['\n', ' '] ++ (separator ++ (declarationPart u ++
          ls.flatMap fun u => ['\n', ' '] ++ (separator ++ declarationPart u))) := by
      simp
    rw [htext, splitOn_of_cut? (by decide) hcut, List.map_cons, List.flatten_cons, ih hrest,
      trim_append_right (by simp), trim_declarationPart]
    simp

/-- The content is taken apart into what the comment says and the declaration. -/
theorem splitProperty_content {ls : List Text} (hne : ls ≠ []) (hls : ∀ l ∈ ls, IsPlain l) :
    splitProperty (p.content ls) =
      ⟨[trimStart p.description, trimEnd p.fallback ++ ['\n', ' ']], (ls.map trim).flatten⟩ := by
  obtain ⟨l, ls, rfl⟩ := List.exists_cons_of_ne_nil hne
  have hdescription : IsPlain (trimStart p.description) :=
    p.isLabel_description.toIsPlain.mono (List.dropWhile_suffix isBlank).isInfix
  have hfallback : IsPlain (trimEnd p.fallback) :=
    p.isLabel_fallback.toIsPlain.mono (dropEndWhile_prefixOf isBlank _).isInfix
  have hbar : '|' ∉ trimStart p.description := fun h =>
    p.isLabel_description.bar ((List.dropWhile_suffix isBlank).subset h)
  have hbar' : '|' ∉ trimEnd p.fallback ++ ['\n', ' '] := by
    intro h
    rcases List.mem_append.mp h with h | h
    · exact p.isLabel_fallback.bar ((dropEndWhile_prefixOf isBlank _).subset h)
    · exact absurd h (by decide)
  -- The separator has neither blanks nor a bar, so it is in none of the parts of the comment.
  have hdoc : ¬separator <:+: p.doc ++ ['\n', ' '] := by
    rw [doc, List.append_assoc, List.append_assoc, List.cons_append,
      infix_append_cons_iff (by decide), List.cons_append, List.cons_append,
      infix_cons_iff_of_notMem (by decide) (by decide),
      infix_cons_iff_of_notMem (by decide) (by decide), List.nil_append,
      infix_append_cons_iff (by decide), infix_cons_iff_of_notMem (by decide) (by decide), not_or,
      not_or]
    exact ⟨hdescription.separator, hfallback.separator, by decide⟩
  have hcontent : p.content (l :: ls) = p.doc ++ ['\n', ' '] ++ (separator ++ (declarationPart l ++
      ls.flatMap fun u => ['\n', ' '] ++ (separator ++ declarationPart u))) := by
    simp [content]
  have hhead : splitOn [' ', '|', ' '] (p.doc ++ ['\n', ' ']) =
      [trimStart p.description, trimEnd p.fallback ++ ['\n', ' ']] := by
    have hcut : cut? [' ', '|', ' '] (trimStart p.description ++
        ([' ', '|', ' '] ++ (trimEnd p.fallback ++ ['\n', ' ']))) =
        some (trimStart p.description, trimEnd p.fallback ++ ['\n', ' ']) :=
      cut?_append_of_notMem (a := [' ']) (b := [' ']) hbar (by decide)
    rw [doc, List.append_assoc, List.append_assoc]
    rw [splitOn_of_cut? (by decide) hcut, splitOn_of_lacks]
    exact fun h => hbar' (h.subset (by decide))
  rw [splitProperty, hcontent, cut, cut?_append_of_unbordered (by decide) hdoc, Option.getD_some]
  dsimp only
  rw [hhead, flatten_trim_splitOn hls]

def declaration : Text := (p.declarationLines.map trim).flatten

def typeLine : Text := trimEnd p.type ++ (p.more.map trim).flatten

/-- The declaration starts with the name, a colon and the type marker. -/
theorem declaration_eq : p.declaration = p.name ++ [':', ' '] ++ (typeMarker ++ p.typeLine) := by
  have hstart : trimStart (declarationStart p.name p.type) = declarationStart p.name p.type := by
    obtain ⟨c, name, hname⟩ := List.exists_cons_of_ne_nil p.name_ne_nil
    have hc := p.isNameChar_of_mem c (by rw [hname]; exact List.mem_cons_self)
    rw [declarationStart, hname]
    exact List.dropWhile_cons_of_neg (by simp [not_isBlank_of_isNameChar hc])
  have htrim : trim (declarationStart p.name p.type) =
      p.name ++ [':', ' '] ++ (typeMarker ++ trimEnd p.type) := by
    rw [trim, hstart, declarationStart, trimEnd_append p.visible_type, List.append_assoc]
  rw [declaration, declarationLines, List.map_cons, List.flatten_cons, htrim, typeLine]
  simp only [List.append_assoc]

theorem notMem_name {c : Char} (hc : isNameChar c = false) : c ∉ p.name := by
  intro h
  rw [p.isNameChar_of_mem c h] at hc
  cases hc

theorem name_declaration : trim (cut [':'] p.declaration).1 = p.name := by
  have hcut : cut? [':'] p.declaration = some (p.name, ' ' :: (typeMarker ++ p.typeLine)) := by
    rw [declaration_eq, List.append_assoc]
    exact cut?_append_of_notMem (a := []) (b := []) (p.notMem_name (by decide)) (by decide)
  rw [cut, hcut, Option.getD_some]
  apply trim_of_forall_not_blank
  intro c hc
  exact not_isBlank_of_isNameChar (p.isNameChar_of_mem c hc)

theorem cut?_declaration :
    cut? typeMarker p.declaration = some (p.name ++ [':', ' '], p.typeLine) := by
  rw [declaration_eq]
  apply cut?_append_of_unbordered (by decide)
  -- The marker has a point, and the name has none.
  intro h
  have hpoint : '.' ∈ p.name ++ [':', ' '] := h.subset (by decide)
  rcases List.mem_append.mp hpoint with hmem | hmem
  · exact p.notMem_name (by decide) hmem
  · exact absurd hmem (by decide)

end DocumentedProperty

/-! ### The type -/

/-- The type is right behind the first marker, or else behind a later one. -/
theorem declaredType?_of_cut? {t lead w : Text} (h : cut? typeMarker t = some (lead, w)) :
    declaredType? t = (typeBody? w).or (declaredType? (typeMarker.tail ++ w)) := by
  induction t generalizing lead with
  | nil =>
    rw [show cut? typeMarker [] = none from rfl] at h
    cases h
  | cons c t ih =>
    rw [declaredType?]
    rw [cut?] at h
    split at h
    · next hmarker =>
      obtain ⟨rest, hrest⟩ := List.isPrefixOf_iff_prefix.mp hmarker
      obtain rfl : (c :: t).drop typeMarker.length = w := (by simpa using h : _ ∧ _).2
      have htail : t = typeMarker.tail ++ rest := by
        rw [← List.tail_append_of_ne_nil (by decide), hrest, List.tail_cons]
      rw [if_pos hmarker, ← hrest, List.drop_left, htail]
    · next hmarker =>
      obtain ⟨parts, hparts, hw⟩ := Option.map_eq_some_iff.mp h
      obtain ⟨-, rfl⟩ := Prod.mk.inj hw
      rw [if_neg hmarker, Option.none_or]
      exact ih hparts

theorem declaredType?_of_lacks {t : Text} (h : ¬typeMarker <:+: t) : declaredType? t = none := by
  induction t with
  | nil => rfl
  | cons c t ih =>
    rw [List.infix_cons_iff, not_or, ← List.isPrefixOf_iff_prefix] at h
    rw [declaredType?, if_neg h.1, ih h.2]
    rfl

/-- The type on one line is what stands before its last commas, if that is long enough. -/
theorem typeBody?_cons {c : Char} {cs : Text} (hc : c ≠ '.') (hline : '\n' ∉ cs) :
    typeBody? (c :: cs) = if 2 ≤ (dropEndWhile (· == ',') (c :: cs)).length then
      some (dropEndWhile (· == ',') (c :: cs)) else none := by
  have hdrop : cs.dropWhile (· ≠ '\n') = [] := by
    rw [List.dropWhile_eq_nil_iff]
    intro d hd
    rw [decide_eq_true_eq]
    rintro rfl
    exact hline hd
  rw [typeBody?, if_neg hc, hdrop]
  dsimp only
  by_cases hall : ∀ d ∈ cs, (d == ',') = true
  · have hbody : dropEndWhile (· == ',') cs = [] := dropEndWhile_eq_nil_iff.mpr hall
    have hshort : (dropEndWhile (· == ',') (c :: cs)).length ≤ 1 := by
      rw [show c :: cs = [c] ++ cs from rfl, dropEndWhile_append_of_all hall]
      exact (dropEndWhile_prefixOf _ [c]).length_le
    rw [hbody, List.isEmpty_nil, if_pos rfl, if_neg (by omega)]
  · have hsome : ∃ d ∈ cs, (d == ',') = false := by simpa using hall
    have hbody : dropEndWhile (· == ',') cs ≠ [] :=
      fun hnil => hall (dropEndWhile_eq_nil_iff.mp hnil)
    have hlong := List.length_pos_iff.mpr hbody
    have hcons : dropEndWhile (· == ',') (c :: cs) = c :: dropEndWhile (· == ',') cs :=
      dropEndWhile_append (p := [c]) hsome
    rw [hcons, if_neg (by simpa using hbody), if_pos (by rw [List.length_cons]; omega)]

/-- Behind its first character the marker is not found again, if nothing but one character and
commas follows. -/
theorem not_infix_tail_typeMarker {c : Char} {cs : Text} (hcs : ∀ d ∈ cs, d = ',') :
    ¬typeMarker <:+: typeMarker.tail ++ c :: cs := by
  have hcons : typeMarker = 'P' :: typeMarker.tail := rfl
  have hfirst : 'P' ∉ typeMarker.tail := by decide
  have hcommas : ∀ u, 'r' ∈ u → ¬u ⊆ cs := by
    intro u hu hsub
    exact absurd (hcs 'r' (hsub hu)) (by decide)
  intro h
  -- It would lie before the character, at or behind it, or across.
  rcases List.infix_append_iff_ne_nil.mp h with h | h | ⟨u, v, hu, -, huv, hsuffix, -⟩
  · exact hfirst (h.subset (by decide))
  · rcases List.infix_cons_iff.mp h with h | h
    · rw [hcons, List.cons_prefix_cons] at h
      exact hcommas typeMarker.tail (by decide) h.2.subset
    · exact hcommas typeMarker (by decide) h.subset
  · obtain ⟨d, u, rfl⟩ := List.exists_cons_of_ne_nil hu
    rw [hcons, List.cons_append, List.cons.injEq] at huv
    rw [huv.1] at hfirst
    exact hfirst (hsuffix.subset List.mem_cons_self)

/-- The type behind the first marker, if what follows the marker is one line. -/
theorem declaredType?_eq {t lead : Text} {c : Char} {cs : Text}
    (h : cut? typeMarker t = some (lead, c :: cs)) (hc : c ≠ '.') (hline : '\n' ∉ cs) :
    declaredType? t = if 2 ≤ (dropEndWhile (· == ',') (c :: cs)).length then
      some (dropEndWhile (· == ',') (c :: cs)) else none := by
  rw [declaredType?_of_cut? h, typeBody?_cons hc hline]
  split
  · rfl
  · next hshort =>
    -- A type that is too short leaves no room for a second marker.
    rw [Option.none_or]
    apply declaredType?_of_lacks
    apply not_infix_tail_typeMarker
    intro d hd
    apply Classical.byContradiction
    intro hne
    apply hshort
    rw [show c :: cs = [c] ++ cs from rfl, dropEndWhile_append ⟨d, hd, by simpa using hne⟩,
      List.length_append]
    have hbody : dropEndWhile (· == ',') cs ≠ [] := fun hnil =>
      hne (by simpa using dropEndWhile_eq_nil_iff.mp hnil d hd)
    have hlong := List.length_pos_iff.mpr hbody
    simp only [List.length_singleton]
    omega

namespace DocumentedProperty

variable (p : DocumentedProperty)

/-- The type that is read: what follows the type marker in the declaration, without the commas at
its end and without the mark of a required property. There is none if it has less than two
characters. -/
def readType : Text :=
  let type := dropEndWhile (· == ',') (cut typeMarker p.declaration).2
  if 2 ≤ type.length then trim (replace ".isRequired".toList [] type) else []

/-- The type that is read from the declaration. -/
theorem type_declaration (doc : List Text) : PropertyText.type ⟨doc, p.declaration⟩ =
    p.readType := by
  have htype : ∃ c cs, trimEnd p.type = c :: cs := by
    apply List.exists_cons_of_ne_nil
    intro hnil
    obtain ⟨c, hc, hblank⟩ := p.visible_type
    rw [dropEndWhile_eq_nil_iff.mp hnil c hc] at hblank
    cases hblank
  obtain ⟨c, cs, htype⟩ := htype
  have hline : p.typeLine = c :: (cs ++ (p.more.map trim).flatten) := by
    rw [typeLine, htype, List.cons_append]
  -- A type that starts with a point is not taken, and one with a newline would end there.
  have hpoint : c ≠ '.' := by
    rintro rfl
    obtain ⟨rest, hrest⟩ := dropEndWhile_prefixOf isBlank p.type
    apply p.head_type
    rw [← hrest, show dropEndWhile isBlank p.type = _ from htype]
    rfl
  have hnewline : '\n' ∉ cs ++ (p.more.map trim).flatten := by
    intro h
    rcases List.mem_append.mp h with h | h
    · have hmem : '\n' ∈ p.type := by
        apply (dropEndWhile_prefixOf isBlank p.type).subset
        rw [show dropEndWhile isBlank p.type = _ from htype]
        exact List.mem_cons_of_mem c h
      exact (p.isPlain_of_mem _ List.mem_cons_self).newline (List.mem_append_right _ hmem)
    · obtain ⟨l', hl', hmem⟩ := List.mem_flatten.mp h
      obtain ⟨l, hl, rfl⟩ := List.mem_map.mp hl'
      exact (p.isPlain_of_mem l (List.mem_cons_of_mem _ hl)).newline ((trim_infixOf l).subset hmem)
  have hcut := p.cut?_declaration
  rw [hline] at hcut
  unfold PropertyText.type readType
  rw [cut, hcut, declaredType?_eq hcut hpoint hnewline, Option.getD_some]
  dsimp only
  generalize dropEndWhile (· == ',') (c :: (cs ++ (p.more.map trim).flatten)) = type
  by_cases hlong : 2 ≤ type.length
  · rw [if_pos hlong, if_pos hlong]
  · rw [if_neg hlong, if_neg hlong]

/-! ### The whole source -/

/-- What is read from the content of the tag. -/
theorem value_content {ls : List Text} (hne : ls ≠ []) (hls : ∀ l ∈ ls, IsPlain l)
    (hlines : ls.map trim = p.declarationLines.map trim) (context : TagContext) :
    property.value (p.content ls) context = .prop
      { name := .str (String.ofList p.name)
        type := .str (String.ofList p.readType)
        description := .str (String.ofList (squeeze p.description))
        default := .str (String.ofList (trim p.fallback))
        required := .bool false
        library := context.options.library } := by
  have hfallback : trim (trimEnd p.fallback ++ ['\n', ' ']) = trim p.fallback := by
    rw [trim_append_right (by simp)]
    exact trim_dropEndWhile (fun _ h => h) p.fallback
  have hempty : (trim p.fallback).isEmpty = false := by
    rw [List.isEmpty_eq_false_iff, Ne, trim_eq_nil_iff]
    intro hall
    obtain ⟨c, hc, hblank⟩ := p.isLabel_fallback.visible
    rw [hall c hc] at hblank
    cases hblank
  have hdeclaration : (ls.map trim).flatten = p.declaration := by rw [hlines, declaration]
  simp only [property, p.splitProperty_content hne hls, hdeclaration, p.type_declaration,
    PropertyText.name, p.name_declaration, List.headD_cons, squeeze_trimStart, List.getD_cons_succ,
    List.getD_cons_zero, hfallback, hempty]
  rfl

/-- The property is the only tag of the block. -/
theorem tags_block {ls : List Text} (hls : ∀ l ∈ ls, IsPlain l) (block : CommentBlock)
    (hshown : (lines block.text).filter isShown = p.tag :: (withSeparators ls).filter isShown) :
    ∃ stop, block.tags = [(.prop, ⟨['p', 'r', 'o', 'p'], p.content ls, 0, stop⟩)] := by
  obtain ⟨stop, hread⟩ := p.read?_tag hls
  have hknown : Tag.known? 0 p.tag ((withSeparators ls).filter isShown) =
      some (.prop, ⟨['p', 'r', 'o', 'p'], p.content ls, 0, stop⟩) := by
    rw [Tag.known?, nameOf_tag, hread]
    rfl
  refine ⟨stop, ?_⟩
  change TagReader.forLines _ 0 ((lines block.text).filter isShown) = _
  rw [hshown, TagReader.forLines, hknown, TagReader.forLines_eq_nil]
  · rfl
  · intro i l hl below
    have hbare := isBare_of_mem_withSeparators hls (List.mem_filter.mp hl).1
    rw [known?_of_notMem hbare.tag]
    rfl

/-- Carriage returns make no difference to the type. -/
theorem readType_stripped : p.stripped.readType = p.readType := by
  have hlines : p.stripped.declarationLines.map trim = p.declarationLines.map trim := by
    rw [declarationLines_stripped, List.map_map]
    congr 1
    exact funext (trim_dropEndWhile isBlank_return)
  unfold readType declaration
  rw [hlines]

end DocumentedProperty

/-- **The round trip.** A documented property, read by the standard registry under settings that are
an object or none, gives one fragment that stands for all its lines and has one property: its name,
its description and default as the comment says, and the type from its declaration. -/
theorem ofSource_documentedProperty (p : DocumentedProperty) (options : Options)
    (hoptions : options.orNone.fault? = none) (file : Json) :
    Fragment.ofSource .standard options file p.source = .ok
      [{ file
         start := .int 1
         stop := .int (3 + p.declarationLines.length)
         tags := [(.prop, [.prop
          { name := .str (String.ofList p.name)
            type := .str (String.ofList p.readType)
            description := .str (String.ofList (squeeze p.description))
            default := .str (String.ofList (trim p.fallback))
            required := .bool false
            library := options.orNone.library }])] }] := by
  obtain ⟨ls, hne, hls, hlines, hblock⟩ := p.stripped.exists_lines_block
  have hfallback : trim p.stripped.fallback = trim p.fallback :=
    trim_dropEndWhile isBlank_return p.fallback
  have hshown : (lines (trimEnd (unlines p.stripped.blockLines))).filter isShown =
      p.stripped.tag :: (withSeparators ls).filter isShown := by
    rw [hblock, List.filter_cons_of_pos p.stripped.isShown_tag, List.filter_cons_of_neg (by decide)]
  obtain ⟨stop, htags⟩ := p.stripped.tags_block hls
    ⟨trimEnd (unlines p.stripped.blockLines), 1, 3 + p.declarationLines.length, file⟩ hshown
  rw [ofSource_standard hoptions, p.extract_source, List.map_singleton, TagReader.fragment,
    values_reader, htags, List.map_singleton]
  dsimp only [Handler.ofKind]
  rw [p.stripped.value_content hne hls hlines, hfallback, p.readType_stripped]
  rfl

/-- The separator has a dash. -/
theorem IsPlain.of_notMem_dash {t : Text} (ht : IsBare t) (hdash : '-' ∉ t) : IsPlain t :=
  ⟨ht, fun h => hdash (h.subset (by decide))⟩

theorem declarationStart_size :
    declarationStart "size".toList "oneOf([".toList = "size: PropTypes.oneOf([".toList := rfl

/-- A property with a list of options. -/
def sizeProperty : DocumentedProperty where
  name := "size".toList
  description := "Size  in px".toList
  fallback := "16 ".toList
  type := "oneOf([".toList
  more := [" 8,".toList, " 16".toList, "]),".toList]
  name_ne_nil := by decide
  isNameChar_of_mem := List.all_eq_true.mp (by decide)
  isLabel_description :=
    ⟨.of_notMem_dash ⟨by decide, by decide, by decide⟩ (by decide), by decide,
      'S', by decide, by decide⟩
  isLabel_fallback :=
    ⟨.of_notMem_dash ⟨by decide, by decide, by decide⟩ (by decide), by decide,
      '1', by decide, by decide⟩
  isPlain_of_mem := by
    intro l hl
    rw [declarationStart_size] at hl
    simp only [List.mem_cons, List.not_mem_nil, or_false] at hl
    rcases hl with rfl | rfl | rfl | rfl
    all_goals exact .of_notMem_dash ⟨by decide, by decide, by decide⟩ (by decide)
  head_type := by decide
  endsDeclaration := by
    rw [declarationStart_size]
    refine .inr ⟨by decide, fun j hj hlt => ?_, by decide⟩
    obtain rfl | rfl | rfl : j = 1 ∨ j = 2 ∨ j = 3 := by simp at hlt; omega
    all_goals decide

theorem readType_sizeProperty : sizeProperty.readType = "oneOf([8,16])".toList := by
  have htype : dropEndWhile (· == ',') sizeProperty.typeLine = "oneOf([8,16])".toList := by
    decide
  have hrequired : ¬".isRequired".toList <:+: "oneOf([8,16])".toList := by
    intro h
    exact absurd (h.subset (show '.' ∈ _ by decide)) (by decide)
  rw [DocumentedProperty.readType, cut, DocumentedProperty.cut?_declaration, Option.getD_some]
  dsimp only
  rw [htype, replace, splitOn_of_lacks hrequired]
  decide

/-- The property with a list of options is read from its source. -/
theorem ofSource_documentedProperty_size :
    Fragment.ofSource .standard .null "button.js" sizeProperty.source = .ok
      [{ file := "button.js", start := .int 1, stop := .int 7
         tags := [(.prop, [.prop
          { name := "size", type := "oneOf([8,16])", description := "Size in px"
            default := "16", required := .bool false, library := "react" }])] }] := by
  rw [ofSource_documentedProperty sizeProperty .null rfl, readType_sizeProperty]
  rfl

end StyleGuide
