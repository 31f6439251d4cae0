import StyleGuide.Proofs.Comment.VisibleLines

/-!
# Tags behind a lead

Every line of a comment may stand behind a lead, such as a star between blanks. The tags of the
comment are those of its plain lines (`tagTexts`), whatever the lead; of the lead only an indent is
left, on the lines below a tag (`contentsOf_forLines`). The first line of a block has lost its
decoration, which makes no difference (`contentsOf_forLines_undecorated`).
-/

namespace StyleGuide

open Text Comment

/-! ### Plain lines -/

def plainLines (ls : List Text) : List Text := (ls.map trimEnd).filter (!·.isEmpty)

/-- Behind a lead of decoration, a line is visible if it is not blank. -/
theorem visible?_lead {lead w : Text} (hlead : ∀ c ∈ lead, isDecoration c = true) (hw : '*' ∉ w) :
    visible? (lead ++ w) = if (trimEnd w).isEmpty then none else some (lead ++ trimEnd w) := by
  by_cases hblank : ∀ c ∈ w, isBlank c = true
  · have hempty : trimEnd w = [] := dropEndWhile_eq_nil_iff.mpr hblank
    rw [hempty, visible?_append_right hblank, visible?_of_decoration hlead]
    rfl
  · have hvisible : ∃ c ∈ w, isBlank c = false := by simpa using hblank
    have hshown : isShown (lead ++ w) = true := by
      rw [isShown, normalize_append_left hlead, normalize_eq_trim hw, Bool.not_eq_true',
        List.isEmpty_eq_false_iff, Ne, trim_eq_nil_iff]
      exact hblank
    have hne : ¬(trimEnd w).isEmpty = true := by
      rw [List.isEmpty_iff]
      exact fun h => hblank (dropEndWhile_eq_nil_iff.mp h)
    rw [visible?, if_pos hshown, if_neg hne, trimEnd_append hvisible]

theorem filterMap_visible?_lead {lead : Text} (hlead : ∀ c ∈ lead, isDecoration c = true)
    {ws : List Text} (hws : ∀ w ∈ ws, '*' ∉ w) :
    (ws.map (lead ++ ·)).filterMap visible? = (plainLines ws).map (lead ++ ·) := by
  unfold plainLines
  induction ws with
  | nil => rfl
  | cons w ws ih =>
    obtain ⟨hw, hrest⟩ := List.forall_mem_cons.mp hws
    rw [List.map_cons, List.filterMap_cons, visible?_lead hlead hw, ih hrest, List.map_cons,
      List.filter_cons]
    cases (trimEnd w).isEmpty <;> rfl

/-! ### Tags of plain lines -/

/-- A tag of a comment: its kind, what is kept of its own line, and what of the lines below. -/
structure TagText where
  kind : TagKind
  own : Option Text
  below : List Text
  deriving DecidableEq

def TagText.content (t : TagText) (indent : Text) : Text :=
  unlines (t.own.toList ++ t.below.map (indent ++ ·))

/-- What is kept for a tag: what is not empty and does not name the tag again. -/
def keeps (marker t : Text) : Bool := !t.isEmpty && !has marker t

/-- The tag of a known kind on a plain line, given the lines below. -/
def tagText? (line : Text) (below : List Text) : Option TagText :=
  let marker := '@' :: Tag.nameOf line
  (TagKind.ofWord? (String.ofList (Tag.nameOf line))).map fun kind =>
    { kind
      own := (some (trim (eraseFirst marker line))).filter (keeps marker)
      below := (below.takeWhile (!Tag.startsTag ·)).filter (keeps marker) }

def tagTextsOf : List Text → List TagText
  | [] => []
  | l :: ls => (tagText? l ls).toList ++ tagTextsOf ls

/-- The tags of a comment. -/
def tagTexts (ls : List Text) : List TagText := tagTextsOf (plainLines ls)

/-! ### Reading behind a lead -/

/-- A lead is decoration, of which only an indent is left when a line behind it is read. -/
structure IsLead (lead indent : Text) : Prop where
  decoration : ∀ c ∈ lead, isDecoration c = true
  blank : ∀ c ∈ indent, isBlank c = true
  stripStar : ∀ v : Text, '*' ∉ v → Tag.stripStar (lead ++ v) = indent ++ v

theorem isLead_nil : IsLead [] [] := ⟨by simp, by simp, fun _ hv => stripStar_of_notMem hv⟩

theorem isLead_space : IsLead [' '] [' '] :=
  ⟨by simp [isDecoration], by simp, fun v hv => stripStar_of_notMem (by simp [hv])⟩

/-- A star and the blanks around it are cut away. -/
theorem isLead_star : IsLead [' ', '*', ' '] [] where
  decoration := by simp [isDecoration]
  blank := by simp
  stripStar v _ := stripStar_append_cons (p := [' ']) (by decide) (' ' :: v)

theorem mem_of_mem_nameOf {c : Char} {v : Text} (hc : c ∈ Tag.nameOf v) : c ∈ v := by
  have h := (List.takeWhile_prefix _).subset hc
  have h := (List.dropWhile_suffix _).subset (List.mem_of_mem_drop h)
  exact (List.dropWhile_suffix isDecoration).subset ((dropEndWhile_prefixOf isBlank _).subset h)

theorem notMem_marker_of_isDecoration {c : Char} {v : Text} (hv : '*' ∉ v)
    (hc : isDecoration c = true) : c ∉ '@' :: Tag.nameOf v := by
  rw [isDecoration, Bool.or_eq_true, beq_iff_eq] at hc
  rcases hc with hc | rfl
  · exact notMem_marker_of_isBlank hc
  · rw [List.mem_cons, not_or]
    exact ⟨by decide, fun h => hv (mem_of_mem_nameOf h)⟩

theorem mem_of_mem_eraseFirst {c : Char} {piece t : Text} (hc : c ∈ eraseFirst piece t) :
    c ∈ t := by
  rw [eraseFirst] at hc
  rcases cut_cases piece t with hcut | hcut
  · simpa [hcut] using hc
  · rw [hcut]
    rcases List.mem_append.mp hc with hc | hc <;> simp [hc]

namespace IsLead

variable {lead indent : Text} (h : IsLead lead indent) {v : Text}

include h

theorem normalize_append (v : Text) : Comment.normalize (lead ++ v) = Comment.normalize v :=
  normalize_append_left h.decoration v

/-- What is kept of the line of a tag does not depend on the lead. -/
theorem firstText (hv : '*' ∉ v) : Tag.firstText ('@' :: Tag.nameOf v) (lead ++ v) =
    trim (eraseFirst ('@' :: Tag.nameOf v) v) := by
  have hlead : ∀ c ∈ lead, c ∉ '@' :: Tag.nameOf v :=
    fun c hc => notMem_marker_of_isDecoration hv (h.decoration c hc)
  rw [Tag.firstText, eraseFirst_append_left (by simp) hlead,
    h.stripStar _ fun hstar => hv (mem_of_mem_eraseFirst hstar), trim_append_left h.blank]

/-- Of a line below a tag the indent is kept. -/
theorem nextText (hv : '*' ∉ v) (hends : trimEnd v = v) (hne : v ≠ []) :
    Tag.nextText (lead ++ v) = indent ++ v := by
  rw [Tag.nextText, h.stripStar v hv, trimEnd_append (exists_not_blank hends hne), hends]

/-- An indent does not change whether a line is kept. -/
theorem keeps_indent (u : Text) (hne : v ≠ []) :
    keeps ('@' :: Tag.nameOf u) (indent ++ v) = keeps ('@' :: Tag.nameOf u) v := by
  have hhas : has ('@' :: Tag.nameOf u) (indent ++ v) = has ('@' :: Tag.nameOf u) v := by
    rw [Bool.eq_iff_iff, has_iff, has_iff]
    exact infix_append_left_iff (by simp) fun c hc => notMem_marker_of_isBlank (h.blank c hc)
  have hempty : (indent ++ v).isEmpty = v.isEmpty := by
    rw [Bool.eq_iff_iff, List.isEmpty_iff, List.isEmpty_iff]
    simp [hne]
  rw [keeps, keeps, hhas, hempty]

end IsLead

/-! ### The content of the tags -/

/-- A line of a comment as it is read: without stars, and neither blank nor with a blank end. -/
structure IsPlainLine (v : Text) : Prop where
  star : '*' ∉ v
  ends : trimEnd v = v
  ne_nil : v ≠ []

theorem isPlainLine_of_mem_plainLines {ls : List Text} (hls : ∀ l ∈ ls, '*' ∉ l) {v : Text}
    (hv : v ∈ plainLines ls) : IsPlainLine v := by
  rw [plainLines, List.mem_filter, List.mem_map] at hv
  obtain ⟨⟨l, hl, rfl⟩, hne⟩ := hv
  exact {
    star := fun h => hls l hl ((dropEndWhile_prefixOf isBlank l).subset h)
    ends := trimEnd_dropEndWhile (fun _ hc => hc) l
    ne_nil := by simpa using hne }

section Contents

variable {lead indent : Text} (h : IsLead lead indent)

include h

/-- What is kept of the lines below a tag: those of the plain lines, each behind the indent. -/
theorem filter_nextText_lead (v : Text) {more : List Text} (hmore : ∀ u ∈ more, IsPlainLine u) :
    ((more.map (lead ++ ·)).map Tag.nextText).filter (keeps ('@' :: Tag.nameOf v)) =
      (more.filter (keeps ('@' :: Tag.nameOf v))).map (indent ++ ·) := by
  have hnext : (more.map (lead ++ ·)).map Tag.nextText = more.map (indent ++ ·) := by
    rw [List.map_map]
    exact List.map_congr_left fun u hu =>
      h.nextText (hmore u hu).star (hmore u hu).ends (hmore u hu).ne_nil
  rw [hnext, List.filter_map]
  congr 1
  exact List.filter_congr fun u hu => h.keeps_indent v (hmore u hu).ne_nil

/-- The content of a tag with lines behind a lead: the lines with what is left of the lead. -/
theorem contentOf_lead {x v : Text}
    (hfirst : Tag.firstText ('@' :: Tag.nameOf v) x = trim (eraseFirst ('@' :: Tag.nameOf v) v))
    {more : List Text} (hmore : ∀ u ∈ more, IsPlainLine u) :
    Tag.contentOf ('@' :: Tag.nameOf v) (x :: more.map (lead ++ ·)) =
      unlines (((some (trim (eraseFirst ('@' :: Tag.nameOf v) v))).filter
          (keeps ('@' :: Tag.nameOf v))).toList ++
        (more.filter (keeps ('@' :: Tag.nameOf v))).map (indent ++ ·)) := by
  rw [Tag.contentOf, hfirst]
  show unlines (List.filter (keeps ('@' :: Tag.nameOf v)) _) = _
  rw [List.filter_cons, filter_nextText_lead h v hmore, Option.filter]
  split <;> rfl

/-- The tag on a line, where the lines below stand behind a lead. The line itself may stand behind
another one. -/
theorem contentsOf_known? {x v : Text} (hname : Tag.nameOf x = Tag.nameOf v)
    (hfirst : Tag.firstText ('@' :: Tag.nameOf v) x = trim (eraseFirst ('@' :: Tag.nameOf v) v))
    {below : List Text} (hbelow : ∀ u ∈ below, IsPlainLine u) (i : Nat) :
    contentsOf (Tag.known? i x (below.map (lead ++ ·))).toList =
      (tagText? v below).toList.map fun t => (t.kind, t.content indent) := by
  rw [Tag.known?, tagText?, hname]
  cases hkind : TagKind.ofWord? (String.ofList (Tag.nameOf v)) with
  | none => rfl
  | some kind =>
    have hne : ¬(Tag.nameOf v).isEmpty = true := by
      rw [List.isEmpty_iff]
      intro hnil
      rw [hnil] at hkind
      cases hkind
    have hstarts : (fun l => !Tag.startsTag l) ∘ (lead ++ ·) = fun l => !Tag.startsTag l :=
      funext fun u => congrArg not (startsTag_congr (h.normalize_append u))
    have hmore : ∀ u ∈ below.takeWhile (!Tag.startsTag ·), IsPlainLine u :=
      fun u hu => hbelow u ((List.takeWhile_prefix _).subset hu)
    rw [Tag.read?, hname, if_neg hne, List.takeWhile_map, hstarts]
    exact congrArg (fun content => [(kind, content)]) (contentOf_lead h hfirst hmore)

/-- Some lines behind a lead. -/
theorem contentsOf_forLines {vs : List Text} (hvs : ∀ v ∈ vs, IsPlainLine v) (i : Nat) :
    contentsOf (TagReader.forLines (fun i line below => (Tag.known? i line below).toList) i
        (vs.map (lead ++ ·))) =
      (tagTextsOf vs).map fun t => (t.kind, t.content indent) := by
  induction vs generalizing i with
  | nil => rfl
  | cons v vs ih =>
    obtain ⟨hv, hrest⟩ := List.forall_mem_cons.mp hvs
    have hknown := contentsOf_known? h (nameOf_congr (h.normalize_append v)) (h.firstText hv.star)
      hrest i
    have hbelow := ih hrest (i + 1)
    rw [contentsOf] at hknown hbelow ⊢
    rw [List.map_cons, TagReader.forLines, tagTextsOf, List.map_append, List.map_append, hknown,
      hbelow]

/-- The same lines, where the first one has lost its decoration. -/
theorem contentsOf_forLines_undecorated {vs : List Text} (hvs : ∀ v ∈ vs, IsPlainLine v) :
    contentsOf (TagReader.forLines (fun i line below => (Tag.known? i line below).toList) 0
        (undecorated (vs.map (lead ++ ·)))) =
      (tagTextsOf vs).map fun t => (t.kind, t.content indent) := by
  cases vs with
  | nil => rfl
  | cons v vs =>
    obtain ⟨hv, hrest⟩ := List.forall_mem_cons.mp hvs
    -- Only the first line has lost its blanks, which are no part of its tag's text.
    obtain ⟨blanks, hsplit, hblanks⟩ := exists_append_trimStart v
    have hdrop : (lead ++ v).dropWhile isDecoration = trimStart v := by
      rw [List.dropWhile_append_of_pos h.decoration, dropWhile_isDecoration hv.star]
    have hname : Tag.nameOf (trimStart v) = Tag.nameOf v := by
      apply nameOf_congr
      conv => rhs; rw [hsplit]
      exact (normalize_append_left (fun c hc => isDecoration_of_isBlank (hblanks c hc)) _).symm
    have hfirst : Tag.firstText ('@' :: Tag.nameOf v) (trimStart v) =
        trim (eraseFirst ('@' :: Tag.nameOf v) v) := by
      have hstart := isLead_nil.firstText (v := trimStart v)
        fun hstar => hv.star ((List.dropWhile_suffix isBlank).subset hstar)
      have herase := eraseFirst_append_left (w := '@' :: Tag.nameOf v) (by simp)
        (fun c hc => notMem_marker_of_isBlank (hblanks c hc)) (trimStart v)
      rw [← hsplit] at herase
      rw [List.nil_append, hname] at hstart
      rw [hstart, herase, trim_append_left hblanks]
    have hknown := contentsOf_known? h hname hfirst hrest 0
    have hbelow := contentsOf_forLines h hrest 1
    rw [contentsOf] at hknown hbelow ⊢
    rw [List.map_cons, undecorated, hdrop, TagReader.forLines, tagTextsOf, List.map_append,
      List.map_append, hknown, hbelow]

end Contents

/-! ### Names of tags -/

/-- No blank is part of a word. -/
theorem not_isWord_of_isBlank {c : Char} (hc : isBlank c = true) : isWord c = false := by
  have hcodes : ∀ n ∈ [9, 10, 11, 12, 13, 28, 29, 30, 31, 32, 0x85, 0xA0, 0x1680, 0x2000, 0x2001,
      0x2002, 0x2003, 0x2004, 0x2005, 0x2006, 0x2007, 0x2008, 0x2009, 0x200A, 0x2028,
      0x2029, 0x202F, 0x205F, 0x3000], isWord (Char.ofNat n) = false := by decide +kernel
  rw [← Char.ofNat_toNat c]
  apply hcodes
  simp only [isBlank, Bool.or_eq_true, Bool.and_eq_true, decide_eq_true_eq, beq_iff_eq] at hc
  simp only [List.mem_cons, List.not_mem_nil, or_false]
  omega

/-- The name of a tag can be read from the line as it is written. -/
theorem nameOf_eq (l : Text) :
    Tag.nameOf l = ((l.dropWhile (· ≠ '@')).drop 1).takeWhile (!isBlank ·) := by
  obtain ⟨lead, tail, hl, hlead, htail⟩ := exists_append_normalize l
  -- No `@` is among the decoration and the blanks, so the first one is in the middle.
  have hleadAt : ∀ c ∈ lead, decide (c ≠ '@') = true := by
    intro c hc
    rw [decide_eq_true_eq]
    rintro rfl
    exact absurd (hlead '@' hc) (by decide)
  have htailAt : ∀ c ∈ tail, decide (c ≠ '@') = true := by
    intro c hc
    rw [decide_eq_true_eq]
    rintro rfl
    exact absurd (htail '@' hc) (by decide)
  have hword : ∀ word : Text, (word ++ tail).takeWhile (!isBlank ·) =
      word.takeWhile (!isBlank ·) := by
    intro word
    have hnone : tail.takeWhile (!isBlank ·) = [] := by
      rw [List.takeWhile_eq_nil_iff]
      intro hpos
      simp [htail]
    rw [List.takeWhile_append, hnone, List.append_nil]
    split
    · next hall => exact (List.takeWhile_prefix _).eq_of_length hall |>.symm
    · rfl
  rw [Tag.nameOf]
  generalize Comment.normalize l = middle at hl ⊢
  rw [hl, List.dropWhile_append_of_pos hleadAt, List.dropWhile_append]
  split
  · next hnone =>
    rw [List.isEmpty_iff.mp hnone, List.dropWhile_eq_nil_iff.mpr htailAt]
  · next hsome =>
    obtain ⟨c, word, hmiddle⟩ := List.exists_cons_of_ne_nil (mt List.isEmpty_iff.mpr hsome)
    rw [hmiddle, List.cons_append]
    exact (hword word).symm

/-- A tag stands behind the first `@` of its line and ends with the line or before a blank. -/
theorem exists_eq_append_of_nameOf {l : Text} (hl : Tag.nameOf l ≠ []) :
    ∃ a b, l = a ++ ('@' :: Tag.nameOf l ++ b) ∧ '@' ∉ a ∧ ∀ c ∈ b.head?, isBlank c = true := by
  by_cases hat : '@' ∈ l
  · obtain ⟨a, q, rfl, ha⟩ := List.eq_append_cons_of_mem hat
    have hbefore : ∀ c ∈ a, decide (c ≠ '@') = true := by
      intro c hc
      rw [decide_eq_true_eq]
      rintro rfl
      exact ha hc
    have hname : Tag.nameOf (a ++ '@' :: q) = q.takeWhile (!isBlank ·) := by
      rw [nameOf_eq, List.dropWhile_append_of_pos hbefore, List.dropWhile_cons_of_neg (by simp)]
      rfl
    refine ⟨a, q.dropWhile (!isBlank ·), ?_, ha, ?_⟩
    · rw [hname, List.cons_append, List.takeWhile_append_dropWhile]
    · intro c hc
      have h := List.head?_dropWhile_not (fun c => !isBlank c) q
      rw [Option.mem_def.mp hc] at h
      simpa using h
  · exact absurd (nameOf_of_notMem hat) hl

/-- A tag that is named like a property announces one. -/
theorem announcesProperty_of_nameOf {l : Text} (hl : Tag.nameOf l = ['p', 'r', 'o', 'p']) :
    announcesProperty l = true := by
  obtain ⟨before, rest, hsplit, -, hrest⟩ := exists_eq_append_of_nameOf (l := l) (by simp [hl])
  have hhead : rest.head?.any isWord = false := by
    cases hc : rest.head? with
    | none => rfl
    | some c => exact not_isWord_of_isBlank (hrest c hc)
  rw [hl] at hsplit
  rw [hsplit]
  exact announcesProperty_append_right
    (announcesProperty_append (t := propertyTag) (by decide) hhead) _

end StyleGuide
