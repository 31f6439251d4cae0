import Mathlib.Data.List.Forall2
import StyleGuide.Proofs.Comment.PropertyBlock
import StyleGuide.Proofs.Comment.Segments
import StyleGuide.Proofs.Tag.TagTexts

/-!
# Two styles of comments

The same lines can be written as a run of line comments or as a block comment. Either way they give
the same tags, in the same order and with the same texts. Only the code examples tell the styles
apart: a line comment keeps the space behind its marker on every line below the tag, a block comment
does not. The statement about whole sources is `ofSource_comment_styles`.

Both styles put a `lead` before every line of the block, of which an `indent` is left when a line is
taken into the content of a tag (`IsLead`). What the reader finds in a block depends on the lines
and on the indent only (`Styled.contents`).
-/

namespace StyleGuide

open Text Comment

/-! ### Comment lines -/

/-- A line that can be written in either style and announces no property. -/
structure IsCommentLine (l : Text) : Prop where
  newline : '\n' ∉ l
  star : '*' ∉ l
  silent : announcesProperty l = false

instance (l : Text) : Decidable (IsCommentLine l) :=
  decidable_of_iff ('\n' ∉ l ∧ '*' ∉ l ∧ announcesProperty l = false)
    ⟨fun ⟨h₁, h₂, h₃⟩ => ⟨h₁, h₂, h₃⟩, fun ⟨h₁, h₂, h₃⟩ => ⟨h₁, h₂, h₃⟩⟩

def lineRun (ls : List Text) : Text := unlines (ls.map (['/', '/', ' '] ++ ·))

def blockComment (ls : List Text) : Text :=
  unlines (['/', '*', '*'] :: ls.map ([' ', '*', ' '] ++ ·) ++ [[' ', '*', '/']])

theorem withoutReturns_append_left {p : Text} (hp : '\r' ∉ p) (t : Text) :
    withoutReturns (p ++ t) = p ++ withoutReturns t := by
  induction p with
  | nil => rfl
  | cons c p ih =>
    rw [List.mem_cons, not_or] at hp
    have hc : (c == '\r') = false := by simpa using Ne.symm hp.1
    calc withoutReturns (c :: (p ++ t))
        = c :: withoutReturns (p ++ t) := dropEndWhile_cons (f := (· == '\r')) hc _
      _ = c :: (p ++ withoutReturns t) := by rw [ih hp.2]

theorem IsCommentLine.withoutReturns {l : Text} (hl : IsCommentLine l) :
    IsCommentLine (withoutReturns l) where
  newline h := hl.newline ((dropEndWhile_prefixOf _ l).subset h)
  star h := hl.star ((dropEndWhile_prefixOf _ l).subset h)
  silent := by
    obtain ⟨rest, hrest, hreturns⟩ := exists_dropEndWhile_append (· == '\r') l
    rw [Bool.eq_false_iff]
    intro h
    have hhead : rest.head?.any isWord = false := by
      cases rest with
      | nil => rfl
      | cons c rest =>
        obtain rfl : c = '\r' := by simpa using hreturns c List.mem_cons_self
        exact show isWord '\r' = false by decide
    have hall := announcesProperty_append h hhead
    rw [StyleGuide.withoutReturns, ← hrest, hl.silent] at hall
    cases hall

/-! ### The block of each style -/

/-- The only star of a starred line stands between blanks. -/
theorem not_infix_starLine {w : Text} (hw : '*' ∉ w) :
    ¬['/', '*'] <:+: [' ', '*', ' '] ++ w ∧ ¬['*', '/'] <:+: [' ', '*', ' '] ++ w := by
  have hlacks : ∀ piece : Text, '*' ∈ piece → ¬piece <:+: w := fun piece hp h => hw (h.subset hp)
  simp [List.infix_cons_iff, hlacks]

/-- A line behind a star does not close its comment. -/
theorem closesBlock_starLine {w : Text} (hw : '*' ∉ w) :
    closesBlock ([' ', '*', ' '] ++ w) = false := by
  have hhas : has ['*', '/'] ([' ', '*', ' '] ++ w) = false := by
    rw [Bool.eq_false_iff, Ne, has_iff]
    exact (not_infix_starLine hw).2
  rw [closesBlock, hhas, Bool.and_false]

theorem stripMarkers_starLine {w : Text} (hw : '*' ∉ w) :
    stripMarkers ([' ', '*', ' '] ++ w) = [' ', '*', ' '] ++ w :=
  stripMarkers_of_lacks (not_infix_starLine hw).1 (not_infix_starLine hw).2

def starLines (ws : List Text) : List Text := ['/', '*', '*'] :: ws.map ([' ', '*', ' '] ++ ·)

section StarLines

variable {ws : List Text} (hws : ∀ w ∈ ws, IsCommentLine w)

include hws

theorem closesBlock_of_mem_starLines : ∀ u ∈ starLines ws, closesBlock u = false := by
  intro u hu
  rcases List.mem_cons.mp hu with rfl | hu
  · decide
  · obtain ⟨w, hw, rfl⟩ := List.mem_map.mp hu
    exact closesBlock_starLine (hws w hw).star

theorem announcesProperty_of_mem_starLines :
    ∀ u ∈ starLines ws ++ [[' ']], announcesProperty u = false := by
  intro u hu
  rcases List.mem_append.mp hu with hu | hu
  · rcases List.mem_cons.mp hu with rfl | hu
    · decide
    · obtain ⟨w, hw, rfl⟩ := List.mem_map.mp hu
      rw [announcesProperty_append_left (by decide)]
      exact (hws w hw).silent
  · obtain rfl := List.mem_singleton.mp hu
    decide

/-- Only the opening line has a marker to strip. -/
theorem map_stripMarkers_starLines : (starLines ws ++ [[' ']]).map stripMarkers =
    ['*'] :: ws.map ([' ', '*', ' '] ++ ·) ++ [[' ']] := by
  have hsame : (ws.map ([' ', '*', ' '] ++ ·)).map stripMarkers =
      ws.map ([' ', '*', ' '] ++ ·) := by
    rw [List.map_map]
    exact List.map_congr_left fun w hw => stripMarkers_starLine (hws w hw).star
  rw [List.map_append, starLines, List.map_cons, hsame]
  rfl

end StarLines

section Extraction

variable {ls : List Text} (hls : ∀ l ∈ ls, IsCommentLine l)

include hls

/-- Lines behind a lead are split as the lines themselves are. -/
theorem sourceLines_lead {lead : Text} (hnewline : '\n' ∉ lead) (hreturn : '\r' ∉ lead)
    (before after : List Text) (hne : before ++ ls.map (lead ++ ·) ++ after ≠ [])
    (hbefore : ∀ l ∈ before, '\n' ∉ l ∧ '\r' ∉ l) (hafter : ∀ l ∈ after, '\n' ∉ l ∧ '\r' ∉ l) :
    sourceLines (unlines (before ++ ls.map (lead ++ ·) ++ after)) =
      before ++ (ls.map withoutReturns).map (lead ++ ·) ++ after := by
  have hkeep : ∀ ts : List Text, (∀ l ∈ ts, '\n' ∉ l ∧ '\r' ∉ l) → ts.map withoutReturns = ts := by
    intro ts hts
    conv => rhs; rw [← List.map_id ts]
    apply List.map_congr_left
    intro t ht
    have h := withoutReturns_append_left (hts t ht).2 []
    rw [List.append_nil] at h
    exact h.trans (List.append_nil t)
  have hlines : ∀ l ∈ before ++ ls.map (lead ++ ·) ++ after, '\n' ∉ l := by
    intro l hl
    rcases List.mem_append.mp hl with hl | hl
    · rcases List.mem_append.mp hl with hl | hl
      · exact (hbefore l hl).1
      · obtain ⟨u, hu, rfl⟩ := List.mem_map.mp hl
        rw [List.mem_append, not_or]
        exact ⟨hnewline, (hls u hu).newline⟩
    · exact (hafter l hl).1
  have hlead : (ls.map (lead ++ ·)).map withoutReturns =
      (ls.map withoutReturns).map (lead ++ ·) := by
    rw [List.map_map, List.map_map]
    exact List.map_congr_left fun l _ => withoutReturns_append_left hreturn l
  rw [sourceLines, lines_unlines hne hlines]
  change (before ++ ls.map (lead ++ ·) ++ after).map withoutReturns = _
  rw [List.map_append, List.map_append, hkeep before hbefore, hkeep after hafter, hlead]

/-- A run of line comments is one block, with the space behind each marker. -/
theorem extract_lineRun (file : Json) : ∃ stop, extract file (lineRun ls) =
    blockOf file (unlines ((ls.map withoutReturns).map ([' '] ++ ·))) 1 stop := by
  cases ls with
  | nil => exact ⟨0, rfl⟩
  | cons l ls =>
    have hlines : sourceLines (lineRun (l :: ls)) =
        ((l :: ls).map withoutReturns).map (['/', '/', ' '] ++ ·) := by
      have hboth := sourceLines_lead hls (by decide : '\n' ∉ ['/', '/', ' ']) (by decide) [] []
        (by simp) (by simp) (by simp)
      rwa [List.nil_append, List.nil_append, List.append_nil, List.append_nil] at hboth
    have hrun : ∀ u ∈ ((l :: ls).map withoutReturns).map (['/', '/', ' '] ++ ·),
        isLineComment u = true := by
      intro u hu
      obtain ⟨w, -, rfl⟩ := List.mem_map.mp hu
      rfl
    have hscan := Extractor.foldl_feed_run (x := { file }) rfl
      (l := ['/', '/', ' '] ++ withoutReturns l) rfl hrun
    have htexts : (((l :: ls).map withoutReturns).map (['/', '/', ' '] ++ ·)).map lineCommentText =
        ((l :: ls).map withoutReturns).map ([' '] ++ ·) := by
      rw [List.map_map]
      rfl
    have hemit := Extractor.blocks_emitAt_inRun (x := { file })
      (((l :: ls).map withoutReturns).map (['/', '/', ' '] ++ ·))
        ((l :: ls).map withoutReturns).length
    rw [htexts, List.nil_append] at hemit
    refine ⟨_, .trans ?_ hemit⟩
    rw [extract, scan, hlines, List.map_cons, List.map_cons, hscan, Extractor.finish,
      if_neg (by simp [Extractor.inRun]), Extractor.emit]
    simp [Extractor.inRun]

/-- A block comment is one block, with a star before each line. -/
theorem extract_blockComment (file : Json) : ∃ stop, extract file (blockComment ls) =
    blockOf file (unlines (['*'] :: (ls.map withoutReturns).map ([' ', '*', ' '] ++ ·) ++ [[' ']]))
      1 stop := by
  have hlines : sourceLines (blockComment ls) =
      starLines (ls.map withoutReturns) ++ [[' ', '*', '/']] :=
    sourceLines_lead hls (by decide) (by decide) [['/', '*', '*']] [[' ', '*', '/']] (by simp)
      (by simp)
      (by simp)
  have hws : ∀ w ∈ ls.map withoutReturns, IsCommentLine w := by
    intro w hw
    obtain ⟨l, hl, rfl⟩ := List.mem_map.mp hw
    exact (hls l hl).withoutReturns
  -- The closing line has nothing but a blank before its marker.
  have hlast : closesBlock [' ', '*', '/'] = true := by decide
  have hcut : cut ['*', '/'] [' ', '*', '/'] = ([' '], []) := by decide
  have hscan := Extractor.foldl_feed_closed (x := { file }) rfl rfl
    (closesBlock_of_mem_starLines hws)
    hlast
  have hphase := Extractor.inComment_phase_of_silent (x := { file })
    (announcesProperty_of_mem_starLines hws)
  have hemit := Extractor.blocks_emit_inComment (x := { file })
    (starLines (ls.map withoutReturns) ++ [[' ']])
  rw [map_stripMarkers_starLines hws, List.nil_append] at hemit
  refine ⟨_, .trans ?_ hemit⟩
  rw [extract, scan, hlines, hscan, hcut, Extractor.endComment, hphase, if_neg (by decide)]
  rfl

end Extraction

/-! ### The visible lines of each style -/

theorem trimEnd_withoutReturns (l : Text) : trimEnd (withoutReturns l) = trimEnd l :=
  trimEnd_dropEndWhile isBlank_return l

/-- Carriage returns at the ends of lines are not seen. -/
theorem plainLines_withoutReturns (ls : List Text) :
    plainLines (ls.map withoutReturns) = plainLines ls := by
  rw [plainLines, plainLines, List.map_map]
  congr 2
  exact funext trimEnd_withoutReturns

/-! ### Texts and examples -/

def exampleOf (content : Text) : TagValue :=
  .code (String.ofList content) (String.ofList (Handler.escapeMarkup content))

/-- The kinds of tags whose values do not depend on how their content is spaced. -/
def spacingFreeKinds : List TagKind :=
  [.category, .component, .name, .description, .sectionKey, .variation, .hidecode, .scssVariable]

/-- Once blanks are collapsed, an indent makes no difference. -/
theorem collapse_flatMap_indent (ls : List Text) (inRun : Bool) :
    collapse inRun ((ls.map ([' '] ++ ·)).flatMap ('\n' :: ·)) =
      collapse inRun (ls.flatMap ('\n' :: ·)) := by
  induction ls generalizing inRun with
  | nil => rfl
  | cons l ls ih =>
    rw [List.map_cons, List.flatMap_cons, List.flatMap_cons]
    calc collapse inRun ('\n' :: ' ' :: (l ++ (ls.map ([' '] ++ ·)).flatMap ('\n' :: ·)))
        = collapse inRun ('\n' :: (l ++ (ls.map ([' '] ++ ·)).flatMap ('\n' :: ·))) :=
          collapse_cons_space isBlank_newline _ inRun
      _ = collapse inRun ('\n' :: l ++ ls.flatMap ('\n' :: ·)) :=
          collapse_append_congr ih ('\n' :: l) inRun

/-- Behind a blank, an indent makes no difference. -/
theorem collapse_content (t : TagText) :
    collapse true (t.content [' ']) = collapse true (t.content []) := by
  obtain ⟨kind, own, below⟩ := t
  rw [TagText.content, TagText.content]
  have hbelow : below.map (([] : Text) ++ ·) = below := List.map_id below
  rw [hbelow]
  cases own with
  | some l =>
    rw [Option.toList_some, List.singleton_append, List.singleton_append, unlines_cons,
      unlines_cons]
    exact collapse_append_congr (collapse_flatMap_indent below) l true
  | none =>
    cases below with
    | nil => rfl
    | cons l below =>
      rw [Option.toList_none, List.nil_append, List.nil_append, List.map_cons, unlines_cons,
        unlines_cons]
      calc collapse true (' ' :: (l ++ (below.map ([' '] ++ ·)).flatMap ('\n' :: ·)))
          = collapse true (l ++ (below.map ([' '] ++ ·)).flatMap ('\n' :: ·)) := by
            rw [collapse, if_pos isBlank_space, if_pos rfl]
        _ = collapse true (l ++ below.flatMap ('\n' :: ·)) :=
            collapse_append_congr (collapse_flatMap_indent below) l true

/-- The halves of an assignment are squeezed alike. -/
theorem squeeze_cut_congr {t u : Text} (h : collapse true t = collapse true u) :
    squeeze (cut [':'] t).1 = squeeze (cut [':'] u).1 ∧
      squeeze (cut [':'] t).2 = squeeze (cut [':'] u).2 := by
  have hcuts : (cut? [':'] t).map (fun parts => (collapse true parts.1, collapse false parts.2)) =
      (cut? [':'] u).map fun parts => (collapse true parts.1, collapse false parts.2) := by
    rw [← cut?_collapse (by decide), ← cut?_collapse (by decide), h]
  rw [cut, cut]
  cases ht : cut? [':'] t <;> cases hu : cut? [':'] u <;> rw [ht, hu] at hcuts
  · exact ⟨by rw [squeeze_eq_trimEnd, squeeze_eq_trimEnd]; exact congrArg trimEnd h, rfl⟩
  · cases hcuts
  · cases hcuts
  · obtain ⟨hname, hvalue⟩ := Prod.mk.inj (Option.some.inj hcuts)
    constructor
    · rw [squeeze_eq_trimEnd, squeeze_eq_trimEnd]
      exact congrArg trimEnd hname
    · exact congrArg trim hvalue

/-- The values of texts and assignments depend on the collapsed content only. -/
theorem exists_value_of_collapse {kind : TagKind} (hkind : kind ∈ spacingFreeKinds) :
    ∃ value : Text → TagValue,
      (∀ content context, (Handler.ofKind kind).value content context = value content) ∧
      ∀ t u, collapse true t = collapse true u → value t = value u := by
  have htext : ∀ t u : Text, collapse true t = collapse true u →
      TagValue.text (String.ofList (squeeze t)) = .text (String.ofList (squeeze u)) := by
    intro t u h
    rw [squeeze_eq_trimEnd, squeeze_eq_trimEnd, h]
  have hassignment : ∀ t u : Text, collapse true t = collapse true u →
      TagValue.entry [("name", String.ofList (squeeze (cut [':'] t).1)),
          ("value", String.ofList (squeeze (cut [':'] t).2))] =
        .entry [("name", String.ofList (squeeze (cut [':'] u).1)),
          ("value", String.ofList (squeeze (cut [':'] u).2))] := by
    intro t u h
    obtain ⟨hname, hvalue⟩ := squeeze_cut_congr h
    rw [hname, hvalue]
  cases kind
  case scssVariable => exact ⟨_, fun _ _ => rfl, hassignment⟩
  case category | component | name | description | sectionKey | variation | hidecode =>
    exact ⟨_, fun _ _ => rfl, htext⟩
  all_goals exact absurd hkind (by decide)

/-! ### Styled blocks -/

/-- A block that has the given lines, behind a lead of which an indent is left. -/
structure Styled (ls : List Text) (indent : Text) (block : CommentBlock) : Prop where
  comment : ∀ l ∈ ls, IsCommentLine l
  visible : ∃ lead, IsLead lead indent ∧
    visible block.text = undecorated ((plainLines ls).map (lead ++ ·))

namespace Styled

variable {ls : List Text} {indent : Text} {block : CommentBlock} (h : Styled ls indent block)

include h

/-- The tags of a styled block are those of its lines, with the indent in their contents. -/
theorem contents : contentsOf block.tags =
    (tagTexts ls).map fun t => (t.kind, t.content indent) := by
  obtain ⟨lead, hlead, hvisible⟩ := h.visible
  rw [tags_eq_visible, hvisible]
  exact contentsOf_forLines_undecorated hlead fun v hv =>
    isPlainLine_of_mem_plainLines (fun l hl => (h.comment l hl).star) hv

/-- The tag on a line of the block is that of a line of the comment. -/
theorem nameOf_of_mem {line : Text} (hline : line ∈ (lines block.text).filter isShown) :
    ∃ l ∈ ls, Tag.nameOf line = Tag.nameOf l := by
  obtain ⟨lead, hlead, hvisible⟩ := h.visible
  have hmem : trimEnd line ∈ undecorated ((plainLines ls).map (lead ++ ·)) := by
    rw [← hvisible, visible_eq_map]
    exact List.mem_map_of_mem hline
  obtain ⟨u, hu, hnormalize⟩ := exists_normalize_of_mem_undecorated hmem
  obtain ⟨v, hv, rfl⟩ := List.mem_map.mp hu
  rw [plainLines, List.mem_filter, List.mem_map] at hv
  obtain ⟨⟨l, hl, rfl⟩, -⟩ := hv
  refine ⟨l, hl, nameOf_congr ?_⟩
  rw [← normalize_trimEnd line, hnormalize, hlead.normalize_append, normalize_trimEnd]

/-- No tag of a comment is a property, so no settings are looked at. -/
theorem faults_eq_nil (options : Options) : (block.reader .standard options).faults = [] := by
  apply faults_reader_of_prop
  intro line hline hprop
  obtain ⟨l, hl, hname⟩ := h.nameOf_of_mem hline
  have hword : (TagKind.word .prop == String.ofList (Tag.nameOf line)) = true :=
    List.find?_some (p := fun k => TagKind.word k == String.ofList (Tag.nameOf line)) hprop
  have hproperty : Tag.nameOf l = ['p', 'r', 'o', 'p'] := by
    rw [beq_iff_eq, hname] at hword
    exact String.ofList_injective (hword.symm.trans rfl)
  have hannounced := announcesProperty_of_nameOf hproperty
  rw [(h.comment l hl).silent] at hannounced
  cases hannounced

theorem isEmpty_fragment (options : Options) :
    (block.reader .standard options).fragment.isEmpty = (tagTexts ls).isEmpty := by
  rw [StyleGuide.isEmpty_fragment, h.contents, List.isEmpty_map]

/-- The examples of a styled block are the contents of its tags. -/
theorem all_examples (options : Options) {flavour : ExampleKind} {kind : TagKind}
    (hkind : kind ∈ flavour.sources) : (block.reader .standard options).fragment.all kind =
      ((tagTexts ls).filter (·.kind = kind)).map fun t => exampleOf (t.content indent) := by
  have hvalue : ∀ content context, (Handler.ofKind kind).value content context =
      exampleOf content := by
    intro content context
    cases flavour <;> cases kind <;> first | exact absurd hkind (by decide) | rfl
  rw [all_fragment_of_value hvalue, h.contents, List.filter_map, List.map_map]
  rfl

end Styled

/-- The fragments of a source whose only comment has the given lines behind a lead. -/
theorem exists_styled_block {ls : List Text} (hls : ∀ l ∈ ls, IsCommentLine l) {lead indent : Text}
    (hlead : IsLead lead indent) {file : Json} {source text : Text} {stop : Int}
    (hextract : extract file source = blockOf file text 1 stop)
    (hvisible : visible text = (plainLines ls).map (lead ++ ·)) (options : Options) :
    ∃ block, Styled ls indent block ∧ Fragment.ofSource .standard options file source =
      .ok ([(block.reader .standard options).fragment].filter (!·.isEmpty)) := by
  have hstyled : Styled ls indent ⟨Comment.normalize text, 1, stop, file⟩ :=
    ⟨hls, lead, hlead, by rw [visible_normalize, hvisible]⟩
  refine ⟨_, hstyled, ?_⟩
  by_cases hempty : (Comment.normalize text).isEmpty = true
  · -- There is no block, and a block without text would have no tags.
    have hnone : extract file source = [] := by rw [hextract, blockOf, if_pos hempty]
    have hfragment : (CommentBlock.reader .standard options
        ⟨Comment.normalize text, 1, stop, file⟩).fragment.isEmpty = true := by
      rw [isEmpty_fragment, List.isEmpty_iff.mp hempty]
      rfl
    rw [ofSource_of_faults (by simp [hnone]), hnone, List.filter_cons, hfragment]
    rfl
  · have hone : extract file source = [⟨Comment.normalize text, 1, stop, file⟩] := by
      rw [hextract, blockOf, if_neg hempty]
    have hfaults : ∀ b ∈ extract file source, (b.reader .standard options).faults = [] := by
      rw [hone]
      intro b hb
      obtain rfl := List.mem_singleton.mp hb
      exact hstyled.faults_eq_nil options
    rw [ofSource_of_faults hfaults, hone, List.map_singleton]

theorem notMem_newline_lead {ls : List Text} (hls : ∀ l ∈ ls, IsCommentLine l) {lead : Text}
    (hlead : '\n' ∉ lead) : ∀ u ∈ (ls.map withoutReturns).map (lead ++ ·), '\n' ∉ u := by
  intro u hu
  obtain ⟨w, hw, rfl⟩ := List.mem_map.mp hu
  obtain ⟨l, hl, rfl⟩ := List.mem_map.mp hw
  rw [List.mem_append, not_or]
  exact ⟨hlead, (hls l hl).withoutReturns.newline⟩

section Styles

variable {ls : List Text} (hls : ∀ l ∈ ls, IsCommentLine l) (options : Options) (file : Json)

include hls

/-- The lead is all that a style adds to the visible lines. -/
theorem visible_styled {lead : Text} (hlead : ∀ c ∈ lead, isDecoration c = true) :
    ((ls.map withoutReturns).map (lead ++ ·)).filterMap visible? =
      (plainLines ls).map (lead ++ ·) := by
  rw [filterMap_visible?_lead hlead, plainLines_withoutReturns]
  intro w hw
  obtain ⟨l, hl, rfl⟩ := List.mem_map.mp hw
  exact (hls l hl).withoutReturns.star

/-- A run of line comments leaves one space before each line. -/
theorem exists_styled_lineRun : ∃ block, Styled ls [' '] block ∧
    Fragment.ofSource .standard options file (lineRun ls) =
      .ok ([(block.reader .standard options).fragment].filter (!·.isEmpty)) := by
  obtain ⟨stop, hextract⟩ := extract_lineRun hls file
  apply exists_styled_block hls isLead_space hextract
  rw [visible_unlines (notMem_newline_lead hls (by decide)),
    visible_styled hls isLead_space.decoration]

/-- A block comment leaves nothing before its lines. -/
theorem exists_styled_blockComment : ∃ block, Styled ls [] block ∧
    Fragment.ofSource .standard options file (blockComment ls) =
      .ok ([(block.reader .standard options).fragment].filter (!·.isEmpty)) := by
  obtain ⟨stop, hextract⟩ := extract_blockComment hls file
  apply exists_styled_block hls isLead_star hextract
  have hnewline : ∀ u ∈ ['*'] :: (ls.map withoutReturns).map ([' ', '*', ' '] ++ ·) ++ [[' ']],
      '\n' ∉ u := by
    intro u hu
    rcases List.mem_append.mp hu with hu | hu
    · rcases List.mem_cons.mp hu with rfl | hu
      · decide
      · exact notMem_newline_lead hls (by decide) u hu
    · obtain rfl := List.mem_singleton.mp hu
      decide
  -- Neither the opening nor the closing line has more than decoration.
  have hopening : visible? ['*'] = none := by decide
  have hclosing : visible? [' '] = none := by decide
  rw [visible_unlines hnewline, List.filterMap_append, List.filterMap_cons, hopening,
    visible_styled hls isLead_star.decoration, List.filterMap_cons, hclosing]
  exact List.append_nil _

end Styles

/-! ### Both styles -/

/-- The fragments of the two styles: the same kinds of tags in the same order, as many values of
each kind, the same texts, and examples in which only the indent of the lines below the tag
differs. -/
structure Restyled (tags : List TagText) (f g : Fragment) : Prop where
  kinds : f.tags.map (·.1) = g.tags.map (·.1)
  counts : ∀ kind, (f.all kind).length = (g.all kind).length
  texts : ∀ kind ∈ spacingFreeKinds, f.all kind = g.all kind
  indented : ∀ flavour : ExampleKind, ∀ kind ∈ flavour.sources,
    f.all kind = (tags.filter (·.kind = kind)).map fun t => exampleOf (t.content [' '])
  plain : ∀ flavour : ExampleKind, ∀ kind ∈ flavour.sources,
    g.all kind = (tags.filter (·.kind = kind)).map fun t => exampleOf (t.content [])

/-- Two styles of the same lines give fragments that differ by style only. -/
theorem Styled.restyled {ls : List Text} {b b' : CommentBlock} (h : Styled ls [' '] b)
    (h' : Styled ls [] b') (options : Options) :
    Restyled (tagTexts ls) (b.reader .standard options).fragment
      (b'.reader .standard options).fragment where
  kinds := by
    apply kinds_fragment
    rw [h.contents, h'.contents, List.map_map, List.map_map]
    rfl
  counts kind := by
    rw [length_all_fragment, length_all_fragment, h.contents, h'.contents, List.filter_map,
      List.filter_map, List.length_map, List.length_map]
    rfl
  texts kind hkind := by
    obtain ⟨value, hvalue, hcollapse⟩ := exists_value_of_collapse hkind
    rw [all_fragment_of_value hvalue, all_fragment_of_value hvalue, h.contents, h'.contents,
      List.filter_map, List.filter_map, List.map_map, List.map_map]
    exact List.map_congr_left fun t _ => hcollapse _ _ (collapse_content t)
  indented _ _ hkind := h.all_examples options hkind
  plain _ _ hkind := h'.all_examples options hkind

/-- **Comment styles.** Lines that are written as a run of line comments or as a block comment give
the same fragment, up to one space before each line of an example that stands below its tag. There
is no fragment if the lines have no tag of a known kind, and one otherwise. -/
theorem ofSource_comment_styles {ls : List Text} (hls : ∀ l ∈ ls, IsCommentLine l)
    (options : Options) (file : Json) :
    ∃ fs gs, Fragment.ofSource .standard options file (lineRun ls) = .ok fs ∧
      Fragment.ofSource .standard options file (blockComment ls) = .ok gs ∧
      fs.length = (if (tagTexts ls).isEmpty then 0 else 1) ∧
      List.Forall₂ (Restyled (tagTexts ls)) fs gs := by
  obtain ⟨b, hb, hline⟩ := exists_styled_lineRun hls options file
  obtain ⟨b', hb', hblock⟩ := exists_styled_blockComment hls options file
  refine ⟨_, _, hline, hblock, ?_⟩
  rw [List.filter_cons, List.filter_cons, hb.isEmpty_fragment, hb'.isEmpty_fragment]
  cases (tagTexts ls).isEmpty with
  | true => exact ⟨rfl, .nil⟩
  | false => exact ⟨rfl, .cons (hb.restyled hb' options) .nil⟩

/-- An example below its tag, with a blank line and an indented one, a name that goes on below its
tag, and an assignment with a line below it that names the tag again. -/
theorem ofSource_comment_styles_example :
    let ls : List Text := ["a".toList, " @html ".toList, "<b>".toList, [], " </b>\r".toList,
      "@name A".toList, "b  c".toList, "@variable x:".toList, "1".toList, "a@variable".toList]
    (∀ l ∈ ls, IsCommentLine l) ∧
      tagTexts ls = [⟨.html, none, ["<b>".toList, " </b>".toList]⟩,
        ⟨.name, some "A".toList, ["b  c".toList]⟩,
        ⟨.scssVariable, some "x:".toList, ["1".toList]⟩, ⟨.scssVariable, some "a".toList, []⟩] ∧
      ∃ fs gs, Fragment.ofSource .standard .none "a.js" (lineRun ls) = .ok fs ∧
        Fragment.ofSource .standard .none "a.js" (blockComment ls) = .ok gs ∧
        fs.length = 1 ∧ List.Forall₂ (Restyled (tagTexts ls)) fs gs := by
  intro ls
  have hls : ∀ l ∈ ls, IsCommentLine l := by decide
  exact ⟨hls, rfl, ofSource_comment_styles hls .none "a.js"⟩

end StyleGuide
