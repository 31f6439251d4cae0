import StyleGuide.Proofs.Comment.Markers
import StyleGuide.Tag.Handler

/-!
# The block of a documented property

A property is documented by a comment of three lines and the declaration behind it, which is one
line that ends with its comma, or several lines of which only the last one closes all parentheses.
The extractor makes one block of them: the text of the comment and then every line of the
declaration, each behind a separator (`extract_source`).
-/

namespace StyleGuide

open Text

/-! ### Documented properties -/

def isNameChar (c : Char) : Bool := c.isAlphanum || c == '_' || c == '$'

/-- One line of text without stars and tags. -/
structure IsBare (t : Text) : Prop where
  newline : '\n' ∉ t
  star : '*' ∉ t
  tag : '@' ∉ t

/-- One line of text without stars, tags and the separator. -/
structure IsPlain (t : Text) : Prop extends IsBare t where
  separator : ¬Comment.separator <:+: t

/-- A text that can stand in the comment of a property: its description or its default. -/
structure IsLabel (t : Text) : Prop extends IsPlain t where
  bar : '|' ∉ t
  visible : ∃ c ∈ t, isBlank c = false

def declarationStart (name type : Text) : Text :=
  name ++ [':', ' '] ++ Handler.typeMarker ++ type

/-- The declaration ends with its last line and not before: one line has a comma and closes the
parentheses that it opens; of several lines, only the last one closes all. -/
def EndsDeclaration (ls : List Text) : Prop :=
  (∃ l, ls = [l] ∧ ',' ∈ l ∧ Comment.parenBalance l ≤ 0) ∨
    (1 < ls.length ∧ (∀ j, 0 < j → j < ls.length → 0 < Comment.parenBalance (ls.take j).flatten) ∧
      Comment.parenBalance ls.flatten ≤ 0)

/-- A property in a source: what its comment says, and the lines of its declaration. -/
structure DocumentedProperty where
  name : Text
  description : Text
  fallback : Text
  /-- What follows the type marker on the first line of the declaration. -/
  type : Text
  /-- The further lines of the declaration. -/
  more : List Text
  name_ne_nil : name ≠ []
  isNameChar_of_mem : ∀ c ∈ name, isNameChar c = true
  isLabel_description : IsLabel description
  isLabel_fallback : IsLabel fallback
  isPlain_of_mem : ∀ l ∈ declarationStart name type :: more, IsPlain l
  head_type : type.head? ≠ some '.'
  endsDeclaration : EndsDeclaration (declarationStart name type :: more)

namespace DocumentedProperty

def declarationLines (p : DocumentedProperty) : List Text :=
    declarationStart p.name p.type :: p.more

def tagLine (p : DocumentedProperty) : Text :=
  " * @prop ".toList ++ p.description ++ " | ".toList ++ p.fallback

def source (p : DocumentedProperty) : Text :=
  unlines (["/**".toList, p.tagLine, " */".toList] ++ p.declarationLines)

end DocumentedProperty

/-! ### Plain texts -/

namespace IsPlain

variable {t u : Text}

theorem mono (ht : IsPlain t) (hu : u <:+: t) : IsPlain u where
  newline h := ht.newline (hu.subset h)
  star h := ht.star (hu.subset h)
  tag h := ht.tag (hu.subset h)
  separator h := ht.separator (h.trans hu)

theorem not_has {piece : Text} (hpiece : '*' ∈ piece) (ht : IsPlain t) : ¬piece <:+: t :=
  fun h => ht.star (h.subset hpiece)

end IsPlain

theorem not_isBlank_of_isNameChar {c : Char} (hc : isNameChar c = true) : isBlank c = false := by
  unfold isNameChar Char.isAlphanum Char.isAlpha Char.isUpper Char.isLower Char.isDigit at hc
  simp only [Bool.or_eq_true, Bool.and_eq_true, decide_eq_true_eq, beq_iff_eq, ge_iff_le,
    UInt32.le_iff_toNat_le] at hc
  change ((((65 ≤ c.toNat ∧ c.toNat ≤ 90) ∨ (97 ≤ c.toNat ∧ c.toNat ≤ 122)) ∨
    (48 ≤ c.toNat ∧ c.toNat ≤ 57)) ∨ c = '_') ∨ c = '$' at hc
  rcases hc with (hc | rfl) | rfl
  · simp only [isBlank, Bool.or_eq_false_iff, Bool.and_eq_false_iff, decide_eq_false_iff_not,
      beq_eq_false_iff_ne]
    omega
  · decide
  · decide

namespace Comment

namespace Extractor

/-- The lines of a list of options, of which only the last one closes all parentheses, are added to
the open block, with separators between them, and close it. -/
theorem foldl_feed_options {x : Extractor} (hphase : x.phase = .options) {ls : List Text}
    (hls : ls ≠ [])
    (hopen : ∀ j, 0 < j → j < ls.length → 0 < x.depth + parenBalance (ls.take j).flatten)
    (hclose : x.depth + parenBalance ls.flatten ≤ 0) :
    ls.foldl feed x =
      emit { x with
        parts := x.parts ++ ls.intersperse separatorLine, line := x.line + ls.length } := by
  -- The depth counts the parentheses of the lines before, so the extractor is generalized.
  induction ls generalizing x with
  | nil => exact absurd rfl hls
  | cons l ls ih =>
    rw [List.foldl_cons]
    cases ls with
    | nil =>
      have hdepth : x.depth + parenBalance l ≤ 0 := by simpa using hclose
      simp [feed, hphase, optionsLine, hdepth, push, emit, emitAt]
    | cons l' ls =>
      have hdepth : 0 < x.depth + parenBalance l := by
        simpa using hopen 1 (by omega) (by simp)
      have hfeed : x.feed l = { x with
          parts := x.parts ++ [l] ++ [separatorLine], depth := x.depth + parenBalance l,
          line := x.line + 1 } := by
        simp [feed, hphase, optionsLine, Int.not_le.mpr hdepth, push]
      rw [hfeed, ih]
      · simp [emit, emitAt, Nat.add_assoc, Nat.add_comm 1]
      · exact hphase
      · simp
      · intro j hj hlt
        have h := hopen (j + 1) (by omega) (by simpa using hlt)
        rwa [List.take_succ_cons, List.flatten_cons, parenBalance_append, ← Int.add_assoc] at h
      · rwa [List.flatten_cons, parenBalance_append, ← Int.add_assoc] at hclose

/-- The lines of a declaration are added to the block that waits for it, with separators between
them, and close it. -/
theorem foldl_feed_declaration {x : Extractor} (hphase : x.phase = .declaration) {c : Char}
    {t : Text} {ls : List Text} (hends : EndsDeclaration ((c :: t) :: ls))
    (hplain : IsPlain (c :: t)) (hc : isNameChar c = true) :
    ((c :: t) :: ls).foldl feed x =
      emit { x with
        parts := x.parts ++ ((c :: t) :: ls).intersperse separatorLine
        line := x.line + ((c :: t) :: ls).length } := by
  have hblank := not_isBlank_of_isNameChar hc
  -- The line starts with a name, so it is neither a comment nor the end of the declarations.
  have hslash : c ≠ '/' := by rintro rfl; simp [isNameChar] at hc
  have hbrace : c ≠ '\x7d' := by rintro rfl; simp [isNameChar] at hc
  have hcode : x.feed (c :: t) = { x with line := x.line + 1 }.declarationCode (c :: t) := by
    have hopens : opensBlock (c :: t) = false := not_isSome_afterMarker? (hplain.not_has (by simp))
    simp [feed, hphase, declarationLine, hopens, trim_cons hblank, hbrace]
  have hstrip : stripMarkers (c :: t) = c :: t :=
    stripMarkers_of_lacks (hplain.not_has (by simp)) (hplain.not_has (by simp))
  have hline : isLineComment (c :: t) = false := by
    simp [isLineComment, afterMarker?, trimStart, hblank, Ne.symm hslash]
  rw [List.foldl_cons, hcode, declarationCode, hstrip]
  dsimp only
  rcases hends with ⟨l, hl, hcomma, hclose⟩ | ⟨hlen, hopen, hclose⟩
  · obtain ⟨rfl, rfl⟩ : c :: t = l ∧ ls = [] := by simpa using hl
    have hcontains : (c :: t).contains ',' = true := by simpa using hcomma
    rw [if_neg (Int.not_lt.mpr hclose), hcontains, hline]
    simp [push, emit, emitAt]
  · have hfirst : 0 < parenBalance (c :: t) := by simpa using hopen 1 (by omega) hlen
    rw [if_pos hfirst, foldl_feed_options]
    · obtain ⟨l', ls, rfl⟩ := List.exists_cons_of_length_pos (Nat.lt_of_succ_lt_succ hlen)
      simp [push, emit, emitAt, Nat.add_assoc, Nat.add_comm 1]
    · rfl
    · intro h
      simp [h] at hlen
    · intro j hj hlt
      have h := hopen (j + 1) (by omega) (by simpa using hlt)
      rwa [List.take_succ_cons, List.flatten_cons, parenBalance_append] at h
    · rwa [List.flatten_cons, parenBalance_append] at hclose

end Extractor

end Comment

/-! ### Carriage returns -/

open Comment

def withoutReturns (t : Text) : Text := dropEndWhile (· == '\r') t

theorem isBlank_return : ∀ c : Char, (c == '\r') = true → isBlank c = true := by
  intro c hc
  rw [beq_iff_eq] at hc
  rw [hc]
  decide

/-- Only the last part of a line can lose carriage returns. -/
theorem withoutReturns_append {p q : Text} (hq : ∃ c ∈ q, isBlank c = false) :
    withoutReturns (p ++ q) = p ++ withoutReturns q := by
  apply dropEndWhile_append
  obtain ⟨c, hc, hblank⟩ := hq
  refine ⟨c, hc, Bool.eq_false_iff.mpr fun hret => ?_⟩
  rw [isBlank_return c hret] at hblank
  cases hblank

theorem mem_withoutReturns_iff {t : Text} {c : Char} (hc : c ≠ '\r') :
    c ∈ withoutReturns t ↔ c ∈ t := by
  obtain ⟨rest, ht, hrest⟩ := exists_dropEndWhile_append (· == '\r') t
  constructor
  · intro h
    exact (dropEndWhile_prefixOf _ t).subset h
  · intro h
    rw [ht, List.mem_append] at h
    rcases h with h | h
    · exact h
    · exact absurd (by simpa using hrest c h) hc

theorem count_withoutReturns {t : Text} {c : Char} (hc : c ≠ '\r') :
    (withoutReturns t).count c = t.count c := by
  obtain ⟨rest, ht, hrest⟩ := exists_dropEndWhile_append (· == '\r') t
  have hzero : rest.count c = 0 := by
    rw [List.count_eq_zero]
    intro h
    exact hc (by simpa using hrest c h)
  conv => rhs; rw [ht, List.count_append, hzero]
  rfl

theorem parenBalance_withoutReturns (t : Text) :
    parenBalance (withoutReturns t) = parenBalance t := by
  simp [parenBalance, count_withoutReturns]

theorem IsPlain.withoutReturns {t : Text} (ht : IsPlain t) : IsPlain (withoutReturns t) :=
  ht.mono (dropEndWhile_prefixOf _ t).isInfix

theorem IsLabel.withoutReturns {t : Text} (ht : IsLabel t) : IsLabel (withoutReturns t) where
  toIsPlain := ht.toIsPlain.withoutReturns
  bar h := ht.bar ((dropEndWhile_prefixOf _ t).subset h)
  visible := by
    obtain ⟨c, hc, hblank⟩ := ht.visible
    refine ⟨c, (mem_withoutReturns_iff ?_).mpr hc, hblank⟩
    rintro rfl
    simp [isBlank] at hblank

/-- Carriage returns make no difference to where a declaration ends. -/
theorem EndsDeclaration.withoutReturns {ls : List Text} (h : EndsDeclaration ls) :
    EndsDeclaration (ls.map withoutReturns) := by
  rcases h with ⟨l, rfl, hcomma, hclose⟩ | ⟨hlen, hopen, hclose⟩
  · refine .inl ⟨_, rfl, (mem_withoutReturns_iff (by decide)).mpr hcomma, ?_⟩
    rwa [parenBalance_withoutReturns]
  · have hsum : ∀ ls : List Text, parenBalance (ls.map StyleGuide.withoutReturns).flatten =
        parenBalance ls.flatten := by
      intro ls
      induction ls with
      | nil => rfl
      | cons l ls ih =>
        rw [List.map_cons, List.flatten_cons, List.flatten_cons, parenBalance_append,
          parenBalance_append, parenBalance_withoutReturns, ih]
    refine .inr ⟨by simpa using hlen, fun j hj hlt => ?_, ?_⟩
    · rw [← List.map_take, hsum]
      exact hopen j hj (by simpa using hlt)
    · rwa [hsum]

/-- Lines, each behind a separator on a line of its own. -/
def withSeparators (ls : List Text) : List Text :=
  ls.flatMap fun l => [[' '] ++ separator ++ [' '], l]

namespace DocumentedProperty

variable (p : DocumentedProperty)

/-- The type has more than blanks: a comma, or the parenthesis that is closed on a later line. -/
theorem visible_type : ∃ c ∈ p.type, isBlank c = false := by
  have hmem : ∀ c, c = ',' ∨ c = '(' → c ∈ declarationStart p.name p.type → c ∈ p.type := by
    intro c hchar hc
    simp only [declarationStart, List.mem_append] at hc
    rcases hc with ((hc | hc) | hc) | hc
    · have hname := p.isNameChar_of_mem c hc
      rcases hchar with rfl | rfl <;> simp [isNameChar] at hname
    · rcases hchar with rfl | rfl <;> exact absurd hc (by decide)
    · rcases hchar with rfl | rfl <;> exact absurd hc (by decide)
    · exact hc
  rcases p.endsDeclaration with ⟨l, hl, hcomma, -⟩ | ⟨hlen, hopen, -⟩
  · obtain ⟨rfl, -⟩ : declarationStart p.name p.type = l ∧ p.more = [] := by simpa using hl
    exact ⟨',', hmem ',' (.inl rfl) hcomma, by decide⟩
  · have hfirst : 0 < parenBalance (declarationStart p.name p.type) := by
      simpa using hopen 1 (by omega) hlen
    have hcount : 0 < (declarationStart p.name p.type).count '(' := by
      unfold parenBalance at hfirst
      omega
    exact ⟨'(', hmem '(' (.inr rfl) (List.count_pos_iff.mp hcount), by decide⟩

/-- The property as the extractor sees it. -/
def stripped : DocumentedProperty :=
  have hstart : declarationStart p.name (withoutReturns p.type) =
      withoutReturns (declarationStart p.name p.type) := (withoutReturns_append p.visible_type).symm
  { name := p.name
    description := p.description
    fallback := withoutReturns p.fallback
    type := withoutReturns p.type
    more := p.more.map withoutReturns
    name_ne_nil := p.name_ne_nil
    isNameChar_of_mem := p.isNameChar_of_mem
    isLabel_description := p.isLabel_description
    isLabel_fallback := p.isLabel_fallback.withoutReturns
    isPlain_of_mem := by
      rw [hstart, ← List.map_cons]
      intro l hl
      obtain ⟨l', hl', rfl⟩ := List.mem_map.mp hl
      exact (p.isPlain_of_mem l' hl').withoutReturns
    head_type := by
      -- What the stripped type starts with, the type starts with.
      intro hhead
      obtain ⟨rest, htype⟩ := dropEndWhile_prefixOf (· == '\r') p.type
      apply p.head_type
      rw [← htype, List.head?_append]
      exact congrArg (Option.or · rest.head?) hhead
    endsDeclaration := by
      rw [hstart, ← List.map_cons]
      exact p.endsDeclaration.withoutReturns }

theorem declarationLines_stripped :
    p.stripped.declarationLines = p.declarationLines.map withoutReturns := by
  have hstart : withoutReturns (declarationStart p.name p.type) =
      declarationStart p.name (withoutReturns p.type) := withoutReturns_append p.visible_type
  rw [declarationLines, declarationLines, List.map_cons, hstart]
  rfl

/-! ### The block -/

def tag : Text := "@prop ".toList ++ p.description ++ " | ".toList ++ p.fallback

/-- The lines of the block: the tag, what is left of the end of the comment, and the declaration
with the separators. -/
def blockLines : List Text := p.tag :: [' '] :: withSeparators p.declarationLines

theorem tagLine_eq : p.tagLine = [' ', '*', ' ', '@', 'p', 'r', 'o', 'p', ' '] ++
    (p.description ++ [' ', '|', ' '] ++ p.fallback) := by
  unfold tagLine
  rw [show " * @prop ".toList = [' ', '*', ' ', '@', 'p', 'r', 'o', 'p', ' '] from rfl]
  rw [show " | ".toList = [' ', '|', ' '] from rfl]
  rw [List.append_assoc, List.append_assoc, List.append_assoc]

theorem tag_eq : p.tag = ['@', 'p', 'r', 'o', 'p', ' '] ++
    (p.description ++ [' ', '|', ' '] ++ p.fallback) := by
  unfold tag
  rw [show "@prop ".toList = ['@', 'p', 'r', 'o', 'p', ' '] from rfl]
  rw [show " | ".toList = [' ', '|', ' '] from rfl]
  rw [List.append_assoc, List.append_assoc, List.append_assoc]

theorem notMem_newline_tagLine : '\n' ∉ p.tagLine := by
  rw [tagLine_eq]
  simp [p.isLabel_description.newline, p.isLabel_fallback.newline]

/-- The lines of the source, as the extractor is fed with them. -/
theorem sourceLines_source : sourceLines p.source =
    ["/**".toList, p.stripped.tagLine, " */".toList] ++ p.stripped.declarationLines := by
  have hlines : lines p.source = ["/**".toList, p.tagLine, " */".toList] ++ p.declarationLines := by
    apply lines_unlines (by simp)
    intro l hl
    rcases List.mem_append.mp hl with hl | hl
    · simp only [List.mem_cons, List.not_mem_nil, or_false] at hl
      rcases hl with rfl | rfl | rfl
      · decide
      · exact p.notMem_newline_tagLine
      · decide
    · exact (p.isPlain_of_mem l hl).newline
  have htag : withoutReturns p.tagLine = p.stripped.tagLine :=
    withoutReturns_append p.isLabel_fallback.visible
  rw [sourceLines, hlines, List.map_append, declarationLines_stripped, ← htag]
  rfl

/-- The only star of the line stands between blanks. -/
theorem not_infix_tagLine {piece : Text} (hpiece : piece = ['*', '/'] ∨ piece = ['/', '*']) :
    ¬piece <:+: p.tagLine := by
  have hrest : '*' ∉ p.description ++ [' ', '|', ' '] ++ p.fallback := by
    simp [p.isLabel_description.star, p.isLabel_fallback.star]
  rw [tagLine_eq]
  generalize p.description ++ [' ', '|', ' '] ++ p.fallback = rest at hrest
  have hinfix : ¬piece <:+: rest := by
    intro h
    apply hrest
    apply h.subset
    rcases hpiece with rfl | rfl <;> simp
  rcases hpiece with rfl | rfl <;> simp [List.infix_cons_iff, hinfix]

/-- The comment announces its property. -/
theorem announcesProperty_tagLine : announcesProperty p.tagLine = true := by
  rw [tagLine_eq]
  have hword : isWord ' ' = false := by decide
  simp [announcesProperty, propertyTag, hword]

/-- Behind the comment the extractor waits for the declaration, with the tag in its block. -/
theorem foldl_feed_comment (file : Json) :
    ["/**".toList, p.tagLine, " */".toList].foldl Extractor.feed { file } =
      { file
        phase := .declaration
        parts := [['*'], '\n' :: p.tagLine, ['\n', ' '], separatorLine]
        start := 1
        line := 3 } := by
  have hopen : Extractor.feed { file } "/**".toList =
      { file, phase := .blockComment, parts := [['*']], start := 1, line := 1 } := rfl
  have hcloses : closesBlock p.tagLine = false := by
    have hhas : has ['*', '/'] p.tagLine = false := by
      rw [Bool.eq_false_iff, Ne, has_iff]
      exact p.not_infix_tagLine (.inl rfl)
    rw [closesBlock, hhas, Bool.and_false]
  have hstrip : stripMarkers p.tagLine = p.tagLine :=
    stripMarkers_of_lacks (p.not_infix_tagLine (.inr rfl)) (p.not_infix_tagLine (.inl rfl))
  rw [List.foldl_cons, hopen, List.foldl_cons, List.foldl_cons, List.foldl_nil]
  have htag : Extractor.feed
      { file, phase := .blockComment, parts := [['*']], start := 1, line := 1 } p.tagLine =
      { file, phase := .propertyComment, parts := [['*'], '\n' :: p.tagLine], start := 1,
          line := 2 } := by
    simp [Extractor.feed, Extractor.blockCommentLine, hcloses, Extractor.addComment, hstrip,
      p.announcesProperty_tagLine, Extractor.push]
  rw [htag]
  rfl

theorem flatten_intersperse (sep : Text) (l : Text) (ls : List Text) :
    ((l :: ls).intersperse sep).flatten = l ++ ls.flatMap (sep ++ ·) := by
  induction ls generalizing l with
  | nil => simp
  | cons l' ls ih => simp [ih]

/-- The pieces of the block are its lines, behind the decoration of the comment. -/
theorem flatten_parts :
    ([['*'], '\n' :: p.tagLine, ['\n', ' '], separatorLine] ++
      p.declarationLines.intersperse separatorLine).flatten =
      ['*', '\n', ' ', '*', ' '] ++ unlines p.blockLines := by
  have hlines : (withSeparators p.declarationLines).flatMap ('\n' :: ·) =
      p.declarationLines.flatMap (separatorLine ++ ·) := by
    rw [withSeparators, List.flatMap_assoc]
    congr 1
    funext l
    simp [separatorLine]
  rw [List.flatten_append, blockLines, unlines_cons, List.flatMap_cons, hlines, tagLine_eq,
    tag_eq]
  rw [declarationLines, flatten_intersperse, List.flatMap_cons]
  simp

/-- **One block.** The extractor finds the property as one block, from the first line to the
last. -/
theorem extract_source (file : Json) :
    extract file p.source =
      [⟨trimEnd (unlines p.stripped.blockLines), 1, 3 + p.declarationLines.length, file⟩] := by
  obtain ⟨c, name, hname⟩ := List.exists_cons_of_ne_nil p.stripped.name_ne_nil
  have hc : isNameChar c = true := p.stripped.isNameChar_of_mem c (by rw [hname]; simp)
  have hstart : ∃ t, declarationStart p.stripped.name p.stripped.type = c :: t := by
    rw [declarationStart, hname]
    exact ⟨_, rfl⟩
  obtain ⟨t, ht⟩ := hstart
  have hends := p.stripped.endsDeclaration
  have hplain := p.stripped.isPlain_of_mem _ List.mem_cons_self
  have hlength : p.stripped.declarationLines.length = p.declarationLines.length := by
    rw [declarationLines_stripped, List.length_map]
  have hscan : scan file p.source = Extractor.emit
      { file
        phase := .declaration
        parts := [['*'], '\n' :: p.stripped.tagLine, ['\n', ' '], separatorLine] ++
          p.stripped.declarationLines.intersperse separatorLine
        start := 1
        line := 3 + p.stripped.declarationLines.length } := by
    rw [scan, sourceLines_source, List.foldl_append, foldl_feed_comment]
    rw [ht] at hends hplain
    rw [declarationLines, ht]
    exact Extractor.foldl_feed_declaration rfl hends hplain hc
  -- The decoration of the comment ends where the tag begins.
  have hunlines : ∃ u, unlines p.stripped.blockLines = '@' :: u := by
    rw [blockLines, unlines_cons, tag_eq]
    exact ⟨_, rfl⟩
  obtain ⟨u, hu⟩ := hunlines
  have htext : normalize (['*', '\n', ' ', '*', ' '] ++ unlines p.stripped.blockLines) =
      trimEnd (unlines p.stripped.blockLines) := by
    rw [hu]
    rfl
  have hempty : (trimEnd (unlines p.stripped.blockLines)).isEmpty = false := by
    rw [hu, trimEnd_cons (by decide)]
    rfl
  rw [extract, hscan]
  unfold Extractor.emit Extractor.emitAt
  dsimp only
  rw [flatten_parts, htext, hempty, hlength]
  simp [Extractor.finish]

end DocumentedProperty

end StyleGuide
