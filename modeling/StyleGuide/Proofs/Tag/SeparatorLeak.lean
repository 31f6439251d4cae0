import StyleGuide.Proofs.Comment.Provenance
import StyleGuide.Proofs.Tag.Standard

/-!
# When the separator shows up in a fragment

The separator is put into a block behind the comment of a property, and only the property tag takes
it out again. So it can get into the values of a fragment. `mentions_separator_iff` says exactly
when: a tag of another kind has it in the part of its content that it shows, or the name or the type
of a property spells it once the declaration is put together.

If the source has no separator, then a line of a block can have one for two reasons only. It is the
separator line behind a comment that announces a property, which belongs to the last tag of that
comment. Or the line is what is left of a source line without its comment markers, and what stood
on the two sides of a marker now spells the separator.
-/

namespace StyleGuide

open Text Comment Handler

/-! ### Texts inside of values -/

def Key.mentions (w : Text) : Key → Bool
  | .name s => has w s.toList
  | .code source escaped => source.mentions w || escaped.mentions w
  | _ => false

inductive Json.Mentions (w : Text) : Json → Prop
  | str {s : String} : w <:+: s.toList → Mentions w (.str s)
  | item {items : List Json} {v : Json} : v ∈ items → Mentions w v → Mentions w (.arr items)
  | key {fields : Fields} {f : Key × Json} : f ∈ fields → f.1.mentions w = true →
      Mentions w (.obj fields)
  | field {fields : Fields} {f : Key × Json} : f ∈ fields → Mentions w f.2 →
      Mentions w (.obj fields)
  | source {source escaped : Json} : Mentions w source → Mentions w (.code source escaped)
  | escaped {source escaped : Json} : Mentions w escaped → Mentions w (.code source escaped)

def TagValue.Mentions (w : Text) : TagValue → Prop
  | .data v => v.Mentions w
  | .prop p => p.name.Mentions w ∨ p.type.Mentions w ∨ p.description.Mentions w ∨
      p.default.Mentions w ∨ p.required.Mentions w ∨ p.library.Mentions w

def Fragment.Mentions (w : Text) (f : Fragment) : Prop := ∃ t ∈ f.tags, ∃ v ∈ t.2, v.Mentions w

variable {w t : Text}

theorem Json.mentions_str_iff {s : String} : (Json.str s).Mentions w ↔ w <:+: s.toList := by
  constructor
  · rintro (h | _)
    exact h
  · exact .str

theorem Json.mentions_ofList_iff : (Json.str (String.ofList t)).Mentions w ↔ w <:+: t := by
  rw [mentions_str_iff, String.toList_ofList]

theorem Json.mentions_code_iff {source escaped : Json} :
    (Json.code source escaped).Mentions w ↔ source.Mentions w ∨ escaped.Mentions w := by
  constructor
  · intro h
    cases h with
    | source h => exact .inl h
    | escaped h => exact .inr h
  · rintro (h | h)
    · exact .source h
    · exact .escaped h

/-- The labels of entries do not have the separator. -/
theorem not_separator_label {s : String} (hs : s ∈ ["name", "description", "type", "value"]) :
    ¬separator <:+: s.toList := by
  have hdash : ∀ s ∈ ["name", "description", "type", "value"], '-' ∉ s.toList := by decide
  intro h
  exact hdash s hs (h.subset (by decide))

/-- No label has the separator, so only the labelled texts can. -/
theorem TagValue.mentions_entry_iff {labels : List (String × String)}
    (hlabels : labels.map (·.1) ⊆ ["name", "description", "type", "value"]) :
    (TagValue.entry labels).Mentions separator ↔ ∃ l ∈ labels, separator <:+: l.2.toList := by
  constructor
  · intro h
    cases h with
    | key hf hkey =>
      obtain ⟨l, hl, rfl⟩ := List.mem_map.mp hf
      exact absurd (has_iff.mp hkey) (not_separator_label (hlabels (List.mem_map_of_mem hl)))
    | field hf hvalue =>
      obtain ⟨l, hl, rfl⟩ := List.mem_map.mp hf
      exact ⟨l, hl, Json.mentions_str_iff.mp hvalue⟩
  · rintro ⟨l, hl, h⟩
    exact .field (List.mem_map_of_mem hl) (.str h)

/-! ### Fragments -/

theorem Fragment.mentions_add_iff {f : Fragment} {kind : TagKind} {value : TagValue} :
    (f.add kind value).Mentions w ↔ f.Mentions w ∨ value.Mentions w := by
  obtain ⟨place, tags⟩ := f
  unfold Fragment.Mentions Fragment.add
  dsimp only
  induction tags with
  | nil => simp [Fragment.insert]
  | cons t rest ih =>
    obtain ⟨k, vs⟩ := t
    rw [Fragment.insert]
    split
    · simp only [List.mem_cons, List.mem_append, List.not_mem_nil, or_false,
        or_and_right, exists_or, exists_eq_left]
      exact or_right_comm
    · simp only [List.mem_cons, exists_eq_or_imp, ih]
      exact or_assoc.symm

/-- A fragment mentions what one of its values mentions. -/
theorem Fragment.mentions_foldl_add_iff {f : Fragment} {values : List (TagKind × TagValue)} :
    (values.foldl (fun f (kind, value) => f.add kind value) f).Mentions w ↔
      f.Mentions w ∨ ∃ v ∈ values, v.2.Mentions w := by
  induction values generalizing f with
  | nil => simp
  | cons v values ih =>
    rw [List.foldl_cons, ih, Fragment.mentions_add_iff, or_assoc]
    simp

/-! ### What a handler shows of its content -/

/-- The text up to the end of its first text in parentheses. -/
def upToParentheses (t : Text) : Text :=
  match parenthesized? t with
  | some (before, inside) => before ++ '(' :: inside
  | none => t

/-- The separator in the content of a tag of this kind gets into its value. A parameter leaves out
what follows its type. A property has taken the separators out, so that only the parts of its
declaration, put together, can spell one: before the colon, or in the type. -/
def TagKind.exposes (kind : TagKind) (content : Text) : Bool :=
  match kind with
  | .prop =>
    let declaration := (splitProperty content).declaration
    has separator (cut [':'] declaration).1 ||
      (declaredType? declaration).any fun t => has separator (replace ".isRequired".toList [] t)
  | .param => has separator (cut dash content).1 ||
      has separator (upToParentheses (cut dash content).2)
  | _ => has separator content

theorem separator_ne_nil : separator ≠ [] := by decide

theorem not_isBlank_of_mem_separator : ∀ c ∈ separator, isBlank c = false := by
  have hall : separator.all (fun c => !isBlank c) = true := by decide
  simpa using hall

/-- The separator has no blanks, so squeezing neither makes nor breaks it. -/
theorem separator_squeeze_iff : separator <:+: squeeze t ↔ separator <:+: t :=
  infix_squeeze_iff not_isBlank_of_mem_separator separator_ne_nil

theorem separator_trim_iff : separator <:+: trim t ↔ separator <:+: t :=
  infix_trim_iff not_isBlank_of_mem_separator separator_ne_nil

theorem escapeMarkup_cons (c : Char) (t : Text) :
    escapeMarkup (c :: t) = (if c = '<' then ['&', 'l', 't', ';'] else
      if c = '>' then ['&', 'g', 't', ';'] else [c]) ++ escapeMarkup t := rfl

/-- A word starts the escaped text only if it starts the text. -/
theorem prefix_of_prefix_escapeMarkup (hw : '&' ∉ w) (h : w <+: escapeMarkup t) : w <+: t := by
  induction t generalizing w with
  | nil => exact h
  | cons c t ih =>
    cases w with
    | nil => exact List.nil_prefix
    | cons d w =>
      rw [List.mem_cons, not_or] at hw
      rw [escapeMarkup_cons] at h
      split at h
      · exact absurd (List.cons_prefix_cons.mp h).1 (Ne.symm hw.1)
      · split at h
        · exact absurd (List.cons_prefix_cons.mp h).1 (Ne.symm hw.1)
        · obtain ⟨rfl, hrest⟩ := List.cons_prefix_cons.mp h
          exact List.cons_prefix_cons.mpr ⟨rfl, ih hw.2 hrest⟩

/-- Escaping does not spell a separator. -/
theorem separator_of_separator_escapeMarkup (h : separator <:+: escapeMarkup t) :
    separator <:+: t := by
  induction t with
  | nil => exact h
  | cons c t ih =>
    -- An entity starts and ends with characters that the separator lacks.
    have hentity : ∀ d e : Char, separator <:+: ['&', d, e, ';'] ++ escapeMarkup t →
        separator <:+: escapeMarkup t := by
      intro d e h
      rw [List.cons_append, infix_cons_iff_of_notMem (by decide) separator_ne_nil] at h
      have hshort : ¬separator <:+: [d, e] := by
        intro hinfix
        have hlength : separator.length = 10 := by decide
        have hle := hinfix.length_le
        simp only [List.length_cons, List.length_nil] at hle
        omega
      exact ((infix_append_cons_iff (p := [d, e]) (by decide)).mp h).resolve_left hshort
    rw [escapeMarkup_cons] at h
    split at h
    · exact List.infix_cons (ih (hentity 'l' 't' h))
    · split at h
      · exact List.infix_cons (ih (hentity 'g' 't' h))
      · next hlt hgt =>
        rw [List.singleton_append] at h
        rcases List.infix_cons_iff.mp h with hstart | hrest
        · have hplain : c :: escapeMarkup t = escapeMarkup (c :: t) := by
            rw [escapeMarkup_cons, if_neg hlt, if_neg hgt]
            rfl
          rw [hplain] at hstart
          exact (prefix_of_prefix_escapeMarkup (by decide) hstart).isInfix
        · exact List.infix_cons (ih hrest)

/-- What stands on the two sides of a dash or a colon has the separator exactly if the whole has
it. -/
theorem separator_cut_iff {piece : Text} (hpiece : piece = dash ∨ piece = [':']) :
    (separator <:+: (cut piece t).1 ∨ separator <:+: (cut piece t).2) ↔ separator <:+: t := by
  rcases cut_cases piece t with h | h
  · rw [h]
    exact or_iff_left fun hnil => separator_ne_nil (List.infix_nil.mp hnil)
  · conv => rhs; rw [h, List.append_assoc]
    generalize (cut piece t).1 = before
    generalize (cut piece t).2 = after
    rcases hpiece with rfl | rfl
    · have hdash : dash ++ after = ' ' :: (['-'] ++ ' ' :: after) := rfl
      rw [hdash, infix_append_cons_iff (by decide), infix_append_cons_iff (by decide),
        or_iff_right (a := separator <:+: ['-']) (by decide)]
    · rw [List.singleton_append, infix_append_cons_iff (by decide)]

/-! ### Values of the standard handlers -/

section Values

variable {content : Text} {context : TagContext}

/-- A line of text has the separator exactly if the content has it. -/
theorem mentions_text_iff :
    (Handler.text.value content context).Mentions separator ↔ separator <:+: content :=
  Json.mentions_ofList_iff.trans separator_squeeze_iff

theorem mentions_code_iff :
    (Handler.code.value content context).Mentions separator ↔ separator <:+: content := by
  refine Json.mentions_code_iff.trans ?_
  rw [Json.mentions_ofList_iff, Json.mentions_ofList_iff]
  exact ⟨fun h => h.elim id separator_of_separator_escapeMarkup, .inl⟩

theorem mentions_state_iff :
    (Handler.state.value content context).Mentions separator ↔ separator <:+: content := by
  have hvalue : Handler.state.value content context =
      .entry [("name", String.ofList (squeeze (cut dash content).1)),
        ("description", String.ofList (squeeze (cut dash content).2))] := rfl
  rw [hvalue, TagValue.mentions_entry_iff (by simp),
    ← separator_cut_iff (.inl rfl)]
  simp [separator_squeeze_iff]

theorem mentions_assignment_iff :
    (Handler.assignment.value content context).Mentions separator ↔ separator <:+: content := by
  have hvalue : Handler.assignment.value content context =
      .entry [("name", String.ofList (squeeze (cut [':'] content).1)),
        ("value", String.ofList (squeeze (cut [':'] content).2))] := rfl
  rw [hvalue, TagValue.mentions_entry_iff (by simp),
    ← separator_cut_iff (.inr rfl)]
  simp [separator_squeeze_iff]

/-- A parameter has no place for what stands behind its parentheses. -/
theorem mentions_param_iff :
    (Handler.param.value content context).Mentions separator ↔
      separator <:+: (cut dash content).1 ∨
        separator <:+: upToParentheses (cut dash content).2 := by
  generalize hparts : (parenthesized? (cut dash content).2).getD ((cut dash content).2, []) = parts
  have hvalue : Handler.param.value content context =
      .entry [("name", String.ofList (squeeze (cut dash content).1)),
        ("type", String.ofList (trim parts.2)),
        ("description", String.ofList (squeeze parts.1))] := by
    rw [← hparts]
    rfl
  have hshown : separator <:+: upToParentheses (cut dash content).2 ↔
      separator <:+: parts.1 ∨ separator <:+: parts.2 := by
    rw [upToParentheses, ← hparts]
    cases parenthesized? (cut dash content).2 with
    | none => exact (or_iff_left fun h => separator_ne_nil (List.infix_nil.mp h)).symm
    | some parts => exact infix_append_cons_iff (by decide)
  rw [hvalue, TagValue.mentions_entry_iff (by simp), hshown,
    or_comm (a := separator <:+: parts.1)]
  simp [separator_squeeze_iff, separator_trim_iff]

/-- The comment half of a property ends before the first separator. -/
theorem not_separator_doc (doc : Text) (hdoc : doc ∈ (splitProperty content).doc) :
    ¬separator <:+: doc := by
  have hhead : ¬separator <:+: (cut separator content).1 := by
    cases hcut : cut? separator content with
    | none =>
      rw [cut, hcut]
      exact cut?_eq_none_iff.mp hcut
    | some parts =>
      rw [cut, hcut]
      exact not_infix_of_cut? separator_ne_nil hcut
  intro h
  exact hhead (h.trans (infix_of_mem_splitOn hdoc))

/-- Taking the mark for required properties out of a type can spell the separator. -/
theorem separator_type_iff (p : PropertyText) : separator <:+: p.type ↔
    (declaredType? p.declaration).any (fun t => has separator (replace ".isRequired".toList [] t)) =
      true := by
  rw [PropertyText.type]
  cases declaredType? p.declaration with
  | none => simp [separator_ne_nil]
  | some t => rw [Option.any_some, has_iff, separator_trim_iff]

/-- A property can have the separator in its name or its type only. -/
theorem mentions_property_iff (hlibrary : ¬context.options.library.Mentions separator) :
    (Handler.property.value content context).Mentions separator ↔
      separator <:+: (splitProperty content).name ∨
        separator <:+: (splitProperty content).type := by
  -- The documentation stands before the first separator.
  have hpart : ∀ doc : Text, doc = [] ∨ doc ∈ (splitProperty content).doc →
      ¬separator <:+: doc := by
    rintro doc (rfl | hdoc)
    · exact fun h => separator_ne_nil (List.infix_nil.mp h)
    · exact not_separator_doc doc hdoc
  have hdescription : ¬separator <:+: squeeze ((splitProperty content).doc.headD []) := by
    rw [separator_squeeze_iff]
    apply hpart
    cases (splitProperty content).doc <;> simp
  have hdefault : ¬separator <:+: trim ((splitProperty content).doc.getD 1 []) := by
    rw [separator_trim_iff]
    apply hpart
    rw [List.getD_eq_getElem?_getD]
    cases hget : (splitProperty content).doc[1]? with
    | none => exact .inl rfl
    | some doc => exact .inr (List.mem_of_getElem? hget)
  constructor
  · rintro (h | h | h | h | h | h)
    · exact .inl (Json.mentions_ofList_iff.mp h)
    · exact .inr (Json.mentions_ofList_iff.mp h)
    · exact absurd (Json.mentions_ofList_iff.mp h) hdescription
    · dsimp only [property] at h
      split at h
      · cases h
      · exact absurd (Json.mentions_ofList_iff.mp h) hdefault
    · cases h
    · exact absurd h hlibrary
  · rintro (h | h)
    · exact .inl (Json.mentions_ofList_iff.mpr h)
    · exact .inr (.inl (Json.mentions_ofList_iff.mpr h))

/-- The value of a tag has the separator exactly if its kind exposes it. -/
theorem mentions_value_iff (kind : TagKind)
    (hlibrary : ¬context.options.library.Mentions separator) :
    ((Handler.ofKind kind).value content context).Mentions separator ↔
      kind.exposes content = true := by
  cases kind
  case prop =>
    change (property.value content context).Mentions separator ↔ _
    rw [mentions_property_iff hlibrary, separator_type_iff, PropertyText.name, separator_trim_iff,
      TagKind.exposes, Bool.or_eq_true, has_iff]
  case param =>
    rw [TagKind.exposes, Bool.or_eq_true, has_iff, has_iff]
    exact mentions_param_iff
  case state => exact mentions_state_iff.trans has_iff.symm
  case scssVariable => exact mentions_assignment_iff.trans has_iff.symm
  case category | component | name | description | sectionKey | variation | hidecode =>
    exact mentions_text_iff.trans has_iff.symm
  all_goals exact mentions_code_iff.trans has_iff.symm

end Values

/-! ### Fragments of blocks -/

section Reading

variable {options : Options} {block : CommentBlock}

/-- The fragment of a block has the separator exactly if one of its tags exposes it. -/
theorem mentions_fragment_iff (hlibrary : ¬options.orNone.library.Mentions separator) :
    (block.reader .standard options).fragment.Mentions separator ↔
      ∃ t ∈ block.tags, t.1.exposes t.2.content = true := by
  have hnone : ¬Fragment.Mentions separator
      { toPlace := (block.reader .standard options).place, tags := [] } := by
    simp [Fragment.Mentions]
  rw [TagReader.fragment, Fragment.mentions_foldl_add_iff, values_reader, or_iff_right hnone]
  constructor
  · rintro ⟨v, hv, hmentions⟩
    obtain ⟨t, ht, rfl⟩ := List.mem_map.mp hv
    exact ⟨t, ht, (mentions_value_iff t.1 hlibrary).mp hmentions⟩
  · rintro ⟨t, ht, hexposes⟩
    exact ⟨_, List.mem_map_of_mem ht, (mentions_value_iff t.1 hlibrary).mpr hexposes⟩

end Reading

/-! ### Whole sources -/

theorem infix_of_mem_sourceLines {text l : Text} (hl : l ∈ sourceLines text) : l <:+: text := by
  obtain ⟨line, hline, rfl⟩ := List.mem_map.mp hl
  exact (dropEndWhile_prefixOf _ line).isInfix.trans (infix_of_mem_splitAt hline)

/-- A line of a block that has a separator, although the source has none. -/
theorem separator_of_mem_extract {file : Json} {text : Text} (htext : ¬separator <:+: text)
    {block : CommentBlock} (hblock : block ∈ extract file text) {line : Text}
    (hline : line ∈ lines block.text) (hseparator : separator <:+: line) :
    line <:+: [' '] ++ separator ++ [' '] ∨
      ∃ l ∈ sourceLines text, ∃ piece, piece <:+: l ∧ line <:+: stripMarkers piece ∧
        (['/', '*'] <:+: piece ∨ ['*', '/'] <:+: piece) := by
  cases traced_of_mem_extract hblock hline with
  | separator h => exact .inl h
  | code hl h => exact absurd ((hseparator.trans h).trans (infix_of_mem_sourceLines hl)) htext
  | @comment l piece hl hpiece h =>
    refine .inr ⟨l, hl, piece, hpiece, h, ?_⟩
    -- Without markers the piece would have the separator itself.
    apply Classical.byContradiction
    intro hmarkers
    rw [not_or] at hmarkers
    rw [stripMarkers_of_lacks hmarkers.1 hmarkers.2] at h
    exact htext (((hseparator.trans h).trans hpiece).trans (infix_of_mem_sourceLines hl))

/-- **Where the separator shows up.** A source without the separator, under settings whose library
has none either, gives fragments. One of them has the separator inside of a value exactly if some
block has a tag that exposes it. Such a separator was put behind a comment by the extractor, or it
was spelled by a line when its comment markers were removed. -/
theorem mentions_separator_iff (options : Options) (hoptions : options.orNone.fault? = none)
    (hlibrary : ¬options.orNone.library.Mentions separator) (file : Json) (text : Text)
    (htext : ¬separator <:+: text) :
    (∃ fs, Fragment.ofSource .standard options file text = .ok fs ∧
      ((∃ f ∈ fs, f.Mentions separator) ↔
        ∃ block ∈ extract file text, ∃ t ∈ block.tags, t.1.exposes t.2.content = true)) ∧
    ∀ block ∈ extract file text, ∀ line ∈ lines block.text, separator <:+: line →
      line <:+: [' '] ++ separator ++ [' '] ∨
        ∃ l ∈ sourceLines text, ∃ piece, piece <:+: l ∧ line <:+: stripMarkers piece ∧
          (['/', '*'] <:+: piece ∨ ['*', '/'] <:+: piece) := by
  refine ⟨⟨_, ofSource_standard hoptions file text, ?_⟩, fun block hblock line hline =>
    separator_of_mem_extract htext hblock hline⟩
  constructor
  · rintro ⟨f, hf, hmentions⟩
    obtain ⟨block, hblock, rfl⟩ := List.mem_map.mp (List.mem_filter.mp hf).1
    exact ⟨block, hblock, (mentions_fragment_iff hlibrary).mp hmentions⟩
  · rintro ⟨block, hblock, hexposes⟩
    have hmentions := (mentions_fragment_iff hlibrary).mpr hexposes
    refine ⟨_, List.mem_filter.mpr ⟨List.mem_map_of_mem hblock, ?_⟩, hmentions⟩
    -- A fragment with something in a value is not empty, so it is kept.
    obtain ⟨t, ht, -⟩ := hmentions
    rw [Fragment.isEmpty, Bool.not_eq_true', List.isEmpty_eq_false_iff]
    exact List.ne_nil_of_mem ht

/-- A comment whose last tag is a name, and not the property that it announces. -/
def nameBehindProperty : Text := unlines (["/**", " * @prop Size | 'md'", " * @name bar", " */",
  "size: PropTypes.string,"].map String.toList)

/-- The name takes the separator and the declaration that belong to the property. -/
theorem mentions_separator_iff_nameBehindProperty :
    ¬separator <:+: nameBehindProperty ∧
    ∃ fs, Fragment.ofSource .standard .null (.str "") nameBehindProperty = .ok fs ∧
      ∃ f ∈ fs, f.Mentions separator := by
  have hdash : '-' ∉ nameBehindProperty := by decide +kernel
  have htext : ¬separator <:+: nameBehindProperty := fun h => hdash (h.subset (by decide))
  have hlibrary : ¬(Options.orNone .null).library.Mentions separator := by
    have hreact : (Options.orNone .null).library = .str "react" := by rfl
    rw [hreact, Json.mentions_str_iff]
    exact fun h => (by decide : '-' ∉ "react".toList) (h.subset (by decide))
  -- The tag behind the property has the separator, which a name shows.
  have hname : (extract (.str "") nameBehindProperty).any (fun block => block.tags.any fun t =>
      decide (t.1 = .name) && has separator t.2.content) = true := by decide +kernel
  obtain ⟨block, hblock, htags⟩ := List.any_eq_true.mp hname
  obtain ⟨⟨kind, tag⟩, ht, hboth⟩ := List.any_eq_true.mp htags
  obtain ⟨hkind, hhas⟩ := (Bool.and_eq_true _ _).mp hboth
  obtain rfl : kind = .name := of_decide_eq_true hkind
  obtain ⟨⟨fs, hfs, hiff⟩, -⟩ :=
    mentions_separator_iff .null rfl hlibrary (.str "") nameBehindProperty htext
  exact ⟨htext, fs, hfs, hiff.mpr ⟨block, hblock, _, ht, hhas⟩⟩

end StyleGuide
