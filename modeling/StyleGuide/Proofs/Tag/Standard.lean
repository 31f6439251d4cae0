import StyleGuide.Proofs.Text.Pieces
import StyleGuide.Proofs.Text.Trimming
import StyleGuide.Tag.Reader

/-!
# Reading with the standard registry

The standard registry has a handler for every kind of tag, and it looks at every line that has a
tag. So what it reads from a block depends on the tags of the block alone: each tag of a known kind
gives one value (`values_reader`). No block has a fault if the settings have none (`faults_reader`),
and then the fragments of a source are those of its blocks (`ofSource_standard`).
-/

namespace StyleGuide

open Text Comment

/-! ### Tags of known kinds -/

/-- The tag that starts on a line, if it is of a known kind. -/
def Tag.known? (index : Nat) (line : Text) (below : List Text) : Option (TagKind × Tag) :=
  (TagKind.ofWord? (String.ofList (Tag.nameOf line))).bind fun kind =>
    (Tag.read? index line below).map fun tag => (kind, tag)

/-- A line that has more than decoration. -/
def isShown (line : Text) : Bool := !(Comment.normalize line).isEmpty

/-- The tags of a block that are of known kinds, in order. -/
def CommentBlock.tags (block : CommentBlock) : List (TagKind × Tag) :=
  TagReader.forLines (fun i line below => (Tag.known? i line below).toList) 0
    ((lines block.text).filter isShown)

theorem nameOf_of_notMem {line : Text} (hline : '@' ∉ line) : Tag.nameOf line = [] := by
  have hdrop : (Comment.normalize line).dropWhile (· ≠ '@') = [] := by
    rw [List.dropWhile_eq_nil_iff]
    intro c hc
    rw [decide_eq_true_eq]
    rintro rfl
    apply hline
    exact (List.dropWhile_suffix isDecoration).subset ((dropEndWhile_prefixOf isBlank _).subset hc)
  rw [Tag.nameOf, hdrop]
  rfl

theorem known?_of_notMem {line : Text} (hline : '@' ∉ line) (index : Nat) (below : List Text) :
    Tag.known? index line below = none := by
  rw [Tag.known?, nameOf_of_notMem hline]
  rfl

/-- Without a star there is no decoration to strip. -/
theorem stripStar_of_notMem {t : Text} (hstar : '*' ∉ t) : Tag.stripStar t = t := by
  have hall : t.takeWhile (· ≠ '*') = t := by
    rw [List.takeWhile_eq_self_iff]
    intro c hc
    rw [decide_eq_true_eq]
    rintro rfl
    exact hstar hc
  unfold Tag.stripStar
  dsimp only
  rw [hall, if_neg (by simp)]

/-- The standard registry looks at every line that has a tag of a known kind. -/
theorem handler?_standard {line : Text} (hline : '\n' ∉ line) :
    TagReader.handler? .standard line =
      (TagKind.ofWord? (String.ofList (Tag.nameOf line))).map fun kind => (kind, .ofKind kind) := by
  have hsplit : splitOn ['\n', '\n'] line = [line] :=
    splitOn_of_lacks fun h => hline (h.subset (by simp))
  have hdetects : Registry.standard.detects line = line.contains '@' := by
    change Registry.lastParagraphHasTag line = _
    rw [Registry.lastParagraphHasTag, hsplit]
    rfl
  rw [TagReader.handler?, hdetects]
  split
  · cases TagKind.ofWord? (String.ofList (Tag.nameOf line)) <;> rfl
  · next hnone =>
    -- A line that is not looked at has no tag to miss.
    rw [nameOf_of_notMem (by simpa using hnone)]
    rfl

/-! ### Blocks -/

section Reading

variable {options : Options} {block : CommentBlock}

theorem notMem_newline_of_mem_lines {line : Text}
    (hline : line ∈ (block.reader .standard options).lines) : '\n' ∉ line :=
  notMem_of_mem_splitAt (List.mem_filter.mp hline).1

/-- With the usual handlers, the values are those of the tags of known kinds. -/
theorem values_reader : (block.reader .standard options).values =
    block.tags.map fun t =>
      (t.1, (Handler.ofKind t.1).value t.2.content
        ((block.reader .standard options).context t.2)) := by
  apply TagReader.forLines_eq_map
  intro i line hline below
  have hhandler := handler?_standard (notMem_newline_of_mem_lines hline)
  rw [TagReader.value?, show (block.reader .standard options).registry = .standard from rfl,
    hhandler, Tag.known?]
  cases TagKind.ofWord? (String.ofList (Tag.nameOf line)) with
  | none => rfl
  | some kind => cases Tag.read? i line below <;> rfl

/-- Only properties look at the settings, and no other handler can fail. -/
theorem fault?_ofKind {kind : TagKind} {context : TagContext}
    (h : kind = .prop → context.options.fault? = none) :
    (Handler.ofKind kind).fault? context = none := by
  cases kind
  case prop => exact h rfl
  all_goals rfl

/-- Only a property asks for the library, which the settings may be unable to tell. -/
theorem faults_reader_of_prop
    (h : ∀ line ∈ (block.reader .standard options).lines,
      TagKind.ofWord? (String.ofList (Tag.nameOf line)) = some .prop →
        options.orNone.fault? = none) :
    (block.reader .standard options).faults = [] := by
  apply TagReader.forLines_eq_nil
  intro i line hline below
  have hhandler := handler?_standard (notMem_newline_of_mem_lines hline)
  rw [TagReader.fault?, show (block.reader .standard options).registry = .standard from rfl,
    hhandler]
  cases hkind : TagKind.ofWord? (String.ofList (Tag.nameOf line)) with
  | none => rfl
  | some kind =>
    cases Tag.read? i line below with
    | none => rfl
    | some tag =>
      have hfault : (Handler.ofKind kind).fault? ((block.reader .standard options).context tag) =
          none := fault?_ofKind fun hprop => h line hline (hprop ▸ hkind)
      exact congrArg Option.toList hfault

theorem faults_reader (hoptions : options.orNone.fault? = none) :
    (block.reader .standard options).faults = [] :=
  faults_reader_of_prop fun _ _ _ => hoptions

end Reading

/-! ### Fragments -/

def contentsOf (tags : List (TagKind × Tag)) : List (TagKind × Text) :=
  tags.map fun t => (t.1, t.2.content)

namespace Fragment

/-- Values are added behind the others of their kind. -/
theorem all_foldl_add (values : List (TagKind × TagValue)) (f : Fragment) (kind : TagKind) :
    (values.foldl (fun f (kind, value) => f.add kind value) f).all kind =
      f.all kind ++ (values.filter (·.1 = kind)).map (·.2) := by
  induction values generalizing f with
  | nil => rw [List.foldl_nil, List.filter_nil, List.map_nil, List.append_nil]
  | cons v values ih =>
    rw [List.foldl_cons, ih, all_add, List.filter_cons]
    by_cases hv : kind = v.1
    · simp [hv]
    · simp [hv, Ne.symm hv]

theorem kinds_insert (kind : TagKind) (value : TagValue) (tags : List (TagKind × List TagValue)) :
    (insert kind value tags).map (·.1) =
      if kind ∈ tags.map (·.1) then tags.map (·.1) else tags.map (·.1) ++ [kind] := by
  induction tags with
  | nil => rfl
  | cons t tags ih =>
    rw [insert]
    by_cases ht : t.1 = kind
    · simp [ht]
    · rw [if_neg ht, List.map_cons, ih, List.map_cons]
      by_cases hmem : kind ∈ tags.map (·.1)
      · rw [if_pos hmem, if_pos (List.mem_cons_of_mem _ hmem)]
      · rw [if_neg hmem, if_neg (by simp [Ne.symm ht] at hmem ⊢; exact hmem)]
        rfl

/-- The kinds of a fragment depend on the kinds of the values only. -/
theorem kinds_foldl_add {vs ws : List (TagKind × TagValue)} (h : vs.map (·.1) = ws.map (·.1))
    {f g : Fragment} (hfg : f.tags.map (·.1) = g.tags.map (·.1)) :
    (vs.foldl (fun f (kind, value) => f.add kind value) f).tags.map (·.1) =
      (ws.foldl (fun f (kind, value) => f.add kind value) g).tags.map (·.1) := by
  induction vs generalizing ws f g with
  | nil =>
    obtain rfl : ws = [] := List.map_eq_nil_iff.mp h.symm
    exact hfg
  | cons v vs ih =>
    cases ws with
    | nil => cases h
    | cons w ws =>
      obtain ⟨hkind, hrest⟩ := List.cons.inj h
      apply ih hrest
      have hkind : v.1 = w.1 := hkind
      show (insert v.1 v.2 f.tags).map (·.1) = (insert w.1 w.2 g.tags).map (·.1)
      rw [kinds_insert, kinds_insert, hfg, hkind]

end Fragment

section Fragments

variable {options : Options} {block : CommentBlock}

/-- The values of a kind are made of the contents of its tags. -/
theorem all_fragment (kind : TagKind) : (block.reader .standard options).fragment.all kind =
    (block.tags.filter (·.1 = kind)).map fun t =>
      (Handler.ofKind kind).value t.2.content ((block.reader .standard options).context t.2) := by
  rw [TagReader.fragment, Fragment.all_foldl_add, values_reader, List.filter_map, List.map_map]
  apply List.map_congr_left
  intro t ht
  obtain rfl : t.1 = kind := by simpa using (List.mem_filter.mp ht).2
  rfl

theorem length_all_fragment (kind : TagKind) :
    ((block.reader .standard options).fragment.all kind).length =
      ((contentsOf block.tags).filter (·.1 = kind)).length := by
  rw [all_fragment, contentsOf, List.filter_map, List.length_map, List.length_map]
  rfl

/-- The values of a kind whose handler looks at the content of a tag only. -/
theorem all_fragment_of_value {kind : TagKind} {value : Text → TagValue}
    (hvalue : ∀ content context, (Handler.ofKind kind).value content context = value content) :
    (block.reader .standard options).fragment.all kind =
      ((contentsOf block.tags).filter (·.1 = kind)).map fun c => value c.2 := by
  rw [all_fragment, contentsOf, List.filter_map, List.map_map]
  exact List.map_congr_left fun t _ => hvalue _ _

theorem isEmpty_fragment :
    (block.reader .standard options).fragment.isEmpty = (contentsOf block.tags).isEmpty := by
  cases htags : block.tags with
  | nil =>
    rw [TagReader.fragment, values_reader, htags]
    rfl
  | cons t tags =>
    show _ = false
    rw [Bool.eq_false_iff]
    intro hempty
    -- A fragment without tags has no value of any kind.
    have hall : (block.reader .standard options).fragment.all t.1 = [] := by
      rw [Fragment.all, List.isEmpty_iff.mp hempty]
      rfl
    rw [all_fragment, htags] at hall
    simp at hall

/-- The kinds of a fragment depend on the kinds of the tags alone. -/
theorem kinds_fragment {options' : Options} {block' : CommentBlock}
    (h : (contentsOf block.tags).map (·.1) = (contentsOf block'.tags).map (·.1)) :
    (block.reader .standard options).fragment.tags.map (·.1) =
      (block'.reader .standard options').fragment.tags.map (·.1) := by
  rw [contentsOf, contentsOf, List.map_map, List.map_map] at h
  apply Fragment.kinds_foldl_add
  · rw [values_reader, values_reader, List.map_map, List.map_map]
    exact h
  · rfl

end Fragments

/-! ### Whole sources -/

/-- If no block has a fault, then the fragments of a source are those of its blocks. -/
theorem ofSource_of_faults {registry : Registry} {options : Options} {file : Json} {text : Text}
    (hfaults : ∀ b ∈ extract file text, (b.reader registry options).faults = []) :
    Fragment.ofSource registry options file text =
      .ok (((extract file text).map fun b => (b.reader registry options).fragment).filter
        (!·.isEmpty)) := by
  have hreads : ∀ blocks : List CommentBlock,
      (∀ b ∈ blocks, (b.reader registry options).faults = []) →
      (blocks.map (CommentBlock.reader registry options)).mapM TagReader.read =
        .ok (blocks.map fun b => (b.reader registry options).fragment) := by
    intro blocks hblocks
    induction blocks with
    | nil => rfl
    | cons b blocks ih =>
      obtain ⟨hb, hrest⟩ := List.forall_mem_cons.mp hblocks
      have hread : (b.reader registry options).read = .ok (b.reader registry options).fragment := by
        rw [TagReader.read, hb]
      rw [List.map_cons, List.mapM_cons, hread, ih hrest]
      rfl
  rw [Fragment.ofSource, hreads _ hfaults]
  rfl

/-- A source is read block by block, and blocks without tags are left out. -/
theorem ofSource_standard {options : Options} (hoptions : options.orNone.fault? = none)
    (file : Json) (text : Text) :
    Fragment.ofSource .standard options file text =
      .ok (((extract file text).map fun b => (b.reader .standard options).fragment).filter
        (!·.isEmpty)) :=
  ofSource_of_faults fun _ _ => faults_reader hoptions

end StyleGuide
