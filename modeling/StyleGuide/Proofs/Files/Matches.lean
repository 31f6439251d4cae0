import Mathlib.Data.List.Basic
import StyleGuide.Proofs.Files.Sound
import StyleGuide.Proofs.Text.Trimming

/-!
# What a pattern matches in two trees

A match is found step by step, and each step looks only at places above the place where the match
leads. So two trees that agree above this place both have the match or both lack it
(`mem_matchesOf_congr`). A match need not be there at all, though: what is written before a last
`**` is always one (`matchesOf_below`).
-/

namespace StyleGuide

open Path FileTree

/-! ### Where a match leads -/

/-- Where a written path leads from a directory if it has no parent parts. -/
def Path.tip (l : Location) (s : String) : Location := (ofString s).start l ++ meaningful (pieces s)

namespace Glob

/-- A written path that goes only down from a directory. -/
structure IsDownward (s : String) : Prop where
  relative : s.toList.head? ≠ some '/'
  down : ".." ∉ pieces s

theorem isDownward_empty : IsDownward "" := ⟨by decide, by decide⟩

theorem isDownward_slashed {names : List String} (h : IsNamed names) (hne : names ≠ []) :
    IsDownward (String.ofList (slashed names)) := by
  obtain ⟨name, rest, rfl⟩ := List.exists_cons_of_ne_nil hne
  have hname : name ≠ "" := (h.1 name List.mem_cons_self).1
  constructor
  · rw [String.toList_ofList, head?_slashed hname]
    intro hhead
    exact h.2 name List.mem_cons_self (List.mem_of_mem_head? hhead)
  · rw [pieces_slashed hne h.2]
    intro hmem
    exact (h.1 ".." hmem).2.2 rfl

theorem meaningful_slashed {names : List String} (h : IsNamed names) (hne : names ≠ []) :
    meaningful (pieces (String.ofList (slashed names))) = names := by
  rw [pieces_slashed hne h.2, meaningful, List.filter_eq_self]
  intro name hname
  obtain ⟨hempty, hpoint, -⟩ := h.1 name hname
  simp [hempty, hpoint]

/-- A relative name leads on from where the path leads. -/
theorem tip_joinText (l : Location) (path : String) {name : String}
    (hname : name.toList.head? ≠ some '/') :
    tip l (joinText path name) = tip l path ++ meaningful (pieces name) := by
  have hstart : (ofString (joinText path name)).start l = (ofString path).start l := by
    by_cases hpath : path = ""
    · subst hpath
      have hrelative : (ofString name).isAbsolute = false :=
        Bool.eq_false_iff.mpr (mt isAbsolute_ofString_iff.mp hname)
      have hjoin : joinText "" name = name := by
        rw [joinText, if_neg hname, if_pos (by decide), String.empty_append]
      rw [hjoin, start, hrelative]
      rfl
    · rw [start, start, isAbsolute_congr (head?_joinText hpath hname)]
  rw [tip, tip, hstart, meaningful_joinText path hname, List.append_assoc]

theorem mem_pieces_joinText {path name p : String} (hname : name.toList.head? ≠ some '/')
    (h : p ∈ pieces (joinText path name)) : p ∈ pieces path ∨ p ∈ pieces name := by
  obtain ⟨hjoin, rfl | ⟨d, rfl⟩⟩ | ⟨hjoin, -⟩ := joinText_cases path hname
  · rw [hjoin, String.empty_append] at h
    exact .inr h
  · rw [hjoin, pieces_append, List.mem_append] at h
    rw [pieces_append_slash, List.mem_append]
    exact h.imp .inl id
  · rwa [hjoin, pieces_append, List.mem_append] at h

/-- Going down twice is going down. -/
theorem down_joinText {path name : String} (hpath : ".." ∉ pieces path) (hname : IsDownward name) :
    ".." ∉ pieces (joinText path name) :=
  fun h => (mem_pieces_joinText hname.relative h).elim hpath hname.down

def slashAfter (dir : String) : String :=
    if dir.isEmpty || dir.toList.getLast? = some '/' then "" else "/"

theorem joinText_eq (dir : String) {name : String} (hname : name.toList.head? ≠ some '/') :
    joinText dir name = dir ++ slashAfter dir ++ name := by
  unfold joinText slashAfter
  rw [if_neg hname]
  split
  · rw [String.append_empty]
  · rfl

theorem slashAfter_append (dir : String) {path : String} (hpath : path ≠ "") :
    slashAfter (dir ++ path) = slashAfter path := by
  have hne : dir ++ path ≠ "" := by
    intro h
    have hnil := congrArg String.toList h
    rw [String.toList_append] at hnil
    exact hpath (String.toList_eq_nil_iff.mp (List.append_eq_nil_iff.mp hnil).2)
  unfold slashAfter
  rw [Bool.eq_false_iff.mpr (mt String.isEmpty_iff.mp hne),
    Bool.eq_false_iff.mpr (mt String.isEmpty_iff.mp hpath),
    String.toList_append, List.getLast?_append]
  cases hlast : path.toList.getLast? with
  | none => exact absurd (String.toList_eq_nil_iff.mp (List.getLast?_eq_none_iff.mp hlast)) hpath
  | some c => rfl

theorem joinNonEmpty_eq {dir path : String} (hdir : dir ≠ "") (hpath : path ≠ "") :
    joinNonEmpty dir path = joinText dir path := by
  rw [joinNonEmpty, if_neg (mt String.isEmpty_iff.mp hdir), if_neg (mt String.isEmpty_iff.mp hpath)]

/-- A name behind a path behind a directory, put together either way. -/
theorem joinNonEmpty_joinNonEmpty {dir path name : String} (hdir : dir ≠ "") (hne : name ≠ "")
    (hname : name.toList.head? ≠ some '/') :
    joinNonEmpty (joinNonEmpty dir path) name = joinNonEmpty dir (joinText path name) := by
  by_cases hpath : path = ""
  · subst hpath
    have hdir' : joinNonEmpty dir "" = dir := by
      rw [joinNonEmpty, if_neg (mt String.isEmpty_iff.mp hdir), if_pos (by decide)]
    have hjoin : joinText "" name = name := by
      rw [joinText, if_neg hname, if_pos (by decide), String.empty_append]
    rw [hdir', hjoin]
  · rw [joinNonEmpty_eq hdir hpath, joinNonEmpty_eq (joinText_ne_empty hdir path) hne,
      joinNonEmpty_eq hdir (joinText_ne_empty hpath name)]
    have hhead := head?_joinText hpath hname
    by_cases hroot : path.toList.head? = some '/'
    · rw [joinText.eq_def dir path, if_pos hroot, joinText.eq_def dir, if_pos (hhead.trans hroot)]
    · rw [joinText_eq dir hroot, joinText_eq _ hname, joinText_eq dir (hhead ▸ hroot),
        joinText_eq path hname, slashAfter_append _ hpath]
      simp only [String.append_assoc]

/-! ### Steps -/

section TwoTrees

variable {t u : FileTree} {cwd l : Location} {dir path name : String}

/-- Two trees that agree on the way to a path are the same to whoever follows it. -/
theorem find_congr (ht : t.find cwd dir = .ok (l, .dir)) (hu : u.find cwd dir = .ok (l, .dir))
    (hpath : ".." ∉ pieces path) (hagree : t.AgreeAbove u (tip l path)) :
    t.find cwd (joinNonEmpty dir path) = u.find cwd (joinNonEmpty dir path) := by
  rw [find_joinNonEmpty ht, find_joinNonEmpty hu, findFrom_congr hpath hagree]

/-- A path without parent parts leads to the place that its names tell. -/
theorem eq_tip_of_find (ht : t.find cwd dir = .ok (l, .dir)) (hpath : ".." ∉ pieces path)
    {m : Location}
    {n : Node} (h : t.find cwd (joinNonEmpty dir path) = .ok (m, n)) : m = tip l path := by
  rw [find_joinNonEmpty ht] at h
  cases hfault : textFault? (joinNonEmpty dir path) with
  | some fault =>
    rw [hfault] at h
    cases h
  | none =>
    rw [hfault] at h
    exact walk_eq_ok hpath (findFrom_eq_ok h).1

/-! ### One step -/

theorem Step.mem_names_name_iff {s : String} {isLast : Bool} :
    name ∈ (Step.name s).names t cwd dir isLast ↔ name = s ∧
      if s = "" then t.isDir cwd dir = true else t.pathExists cwd (joinNonEmpty dir s) = true := by
  show name ∈ (if s.isEmpty then (if t.isDir cwd dir then [s] else [])
    else if t.pathExists cwd (joinNonEmpty dir s) then [s] else []) ↔ _
  by_cases hs : s = ""
  · rw [if_pos (String.isEmpty_iff.mpr hs), if_pos hs]
    by_cases hdir : t.isDir cwd dir = true <;> simp [hdir]
  · rw [if_neg (mt String.isEmpty_iff.mp hs), if_neg hs]
    by_cases hexists : t.pathExists cwd (joinNonEmpty dir s) = true <;> simp [hexists]

def Step.takes (s : String) (isLast : Bool) (name : String) (n : Node) : Bool :=
  (isLast || n == .dir) && (isHidden s || !isHidden name) &&
    Pattern.fits (Pattern.parse s.toList) name.toList

/-- A pattern leads to those names in a directory that it takes. -/
theorem Step.mem_names_pattern_iff (ht : t.Distinct) {s : String} {isLast : Bool} :
    name ∈ (Step.pattern s).names t cwd dir isLast ↔ ∃ m n, t.find cwd dir = .ok (m, .dir) ∧
      t.lookup? (m ++ [name]) = some n ∧ takes s isLast name n = true := by
  show name ∈ ((t.list cwd dir).filter fun e => takes s isLast e.1 e.2).map (·.1) ↔ _
  rw [List.mem_map]
  constructor
  · rintro ⟨⟨found, n⟩, hmem, rfl⟩
    obtain ⟨hlist, htakes⟩ := List.mem_filter.mp hmem
    obtain ⟨m, hfind, hlookup⟩ := (mem_list_iff ht).mp hlist
    exact ⟨m, n, hfind, hlookup, htakes⟩
  · rintro ⟨m, n, hfind, hlookup, htakes⟩
    exact ⟨(name, n), List.mem_filter.mpr ⟨(mem_list_iff ht).mpr ⟨m, hfind, hlookup⟩, htakes⟩, rfl⟩

/-- What makes `**` take some names that are below a directory. -/
def Step.takesBelow (isLast : Bool) (names : List String) (n : Node) : Bool :=
  (isLast || n == .dir) && names.all (!isHidden ·)

/-- Below a directory, `**` leads to what it takes; and it always leads to the directory itself.
-/
theorem Step.mem_names_below_iff (ht : t.Distinct) {isLast : Bool} :
    name ∈ Step.below.names t cwd dir isLast ↔ name = "" ∨ ∃ m names n,
      t.find cwd dir = .ok (m, .dir) ∧
      names ≠ [] ∧ t.lookup? (m ++ names) = some n ∧ takesBelow isLast names n = true ∧
      name = String.ofList (slashed names) := by
  show name ∈ "" :: ((t.listBelow cwd dir).filter fun e => takesBelow isLast e.1 e.2).map
    (fun e => String.ofList (slashed e.1)) ↔ _
  rw [List.mem_cons, List.mem_map]
  apply or_congr_right
  constructor
  · rintro ⟨⟨names, n⟩, hmem, rfl⟩
    obtain ⟨hlist, htakes⟩ := List.mem_filter.mp hmem
    obtain ⟨m, hfind, hnames, hlookup⟩ := (mem_listBelow_iff ht).mp hlist
    exact ⟨m, names, n, hfind, hnames, hlookup, htakes, rfl⟩
  · rintro ⟨m, names, n, hfind, hnames, hlookup, htakes, rfl⟩
    exact ⟨(names, n),
      List.mem_filter.mpr ⟨(mem_listBelow_iff ht).mpr ⟨m, hfind, hnames, hlookup⟩, htakes⟩, rfl⟩

/-- A step that does not go up: only names that are written can do that. -/
def Step.GoesDown : Step → Prop
  | .name s => IsDownward s
  | _ => True

theorem slashed_singleton (name : String) : String.ofList (slashed [name]) = name := by
  simp [slashed, Text.join]

/-- What a step finds never goes up, unless it is written so. -/
theorem Step.isDownward_of_mem_names {step : Step} (hstep : step.GoesDown) (ht : t.Sound)
    {isLast : Bool} (h : name ∈ step.names t cwd dir isLast) : IsDownward name := by
  cases step with
  | name s =>
    rw [(mem_names_name_iff.mp h).1]
    exact hstep
  | pattern s =>
    obtain ⟨m, n, -, hlookup, -⟩ := (mem_names_pattern_iff ht.distinct).mp h
    rw [← slashed_singleton name]
    exact isDownward_slashed (ht.isNamed_right hlookup) (by simp)
  | below =>
    rcases (mem_names_below_iff ht.distinct).mp h with rfl |
      ⟨m, names, n, -, hnames, hlookup, -, rfl⟩
    · exact isDownward_empty
    · exact isDownward_slashed (ht.isNamed_right hlookup) hnames

/-- A step leads to the same name in two trees that agree above the place of that name. -/
theorem Step.mem_names_congr {step : Step} (hstep : step.GoesDown) (ht : t.Sound) (hu : u.Distinct)
    (hdt : t.find cwd dir = .ok (l, .dir)) (hdu : u.find cwd dir = .ok (l, .dir))
    (hpath : ".." ∉ pieces path) (hagree : t.AgreeAbove u (tip l (joinText path name)))
    {isLast : Bool} (h : name ∈ step.names t cwd (joinNonEmpty dir path) isLast) :
    name ∈ step.names u cwd (joinNonEmpty dir path) isLast := by
  have hname := isDownward_of_mem_names hstep ht h
  have htip := tip_joinText l path hname.relative
  -- The directory of the step is above the place of the name, so it is the same in both trees.
  have hfind : t.find cwd (joinNonEmpty dir path) = u.find cwd (joinNonEmpty dir path) :=
    find_congr hdt hdu hpath (hagree.mono (htip ▸ List.prefix_append _ _))
  cases step with
  | name s =>
    obtain ⟨rfl, hs⟩ := mem_names_name_iff.mp h
    refine mem_names_name_iff.mpr ⟨rfl, ?_⟩
    split
    · next hempty =>
      rw [if_pos hempty, isDir, hfind] at hs
      exact hs
    · next hne =>
      have hlong := find_congr hdt hdu (down_joinText hpath hname) hagree
      rw [← joinNonEmpty_joinNonEmpty (find_eq_ok hdt).1 hne hname.relative] at hlong
      rw [if_neg hne, pathExists, hlong] at hs
      exact hs
  | pattern s =>
    obtain ⟨m, n, hm, hlookup, htakes⟩ := (mem_names_pattern_iff ht.distinct).mp h
    obtain rfl := eq_tip_of_find hdt hpath hm
    refine (mem_names_pattern_iff hu).mpr ⟨tip l path, n, hfind ▸ hm, ?_, htakes⟩
    have hmeans := meaningful_slashed (ht.isNamed_right hlookup) (by simp)
    rw [slashed_singleton] at hmeans
    rw [hmeans] at htip
    rw [← hlookup, hagree _ (htip ▸ List.prefix_refl _)]
  | below =>
    rcases (mem_names_below_iff ht.distinct).mp h with hempty |
      ⟨m, names, n, hm, hnames, hlookup, htakes, hs⟩
    · exact (mem_names_below_iff hu).mpr (.inl hempty)
    · obtain rfl := eq_tip_of_find hdt hpath hm
      have hmeans := meaningful_slashed (ht.isNamed_right hlookup) hnames
      refine (mem_names_below_iff hu).mpr
        (.inr ⟨tip l path, names, n, hfind ▸ hm, hnames, ?_, htakes, hs⟩)
      rw [hs, hmeans] at htip
      rw [← hlookup, hagree _ (hs ▸ htip ▸ List.prefix_refl _)]

/-! ### All steps -/

/-- Steps that do not go up lead from a path to something at or below its place. -/
theorem tip_prefix_of_mem_follow {steps : List Step} (hsteps : ∀ step ∈ steps, step.GoesDown)
    (ht : t.Sound) (hpath : ".." ∉ pieces path) {m : String} (h : m ∈ follow t cwd dir steps path) :
    ".." ∉ pieces m ∧ tip l path <+: tip l m := by
  induction steps generalizing path with
  | nil =>
    obtain rfl := List.mem_singleton.mp h
    exact ⟨hpath, List.prefix_refl _⟩
  | cons step steps ih =>
    obtain ⟨hstep, hsteps⟩ := List.forall_mem_cons.mp hsteps
    obtain ⟨name, hmem, hm⟩ := List.mem_flatMap.mp h
    have hname := Step.isDownward_of_mem_names hstep ht hmem
    obtain ⟨hdown, hprefixOf⟩ := ih hsteps (down_joinText hpath hname) hm
    rw [tip_joinText l path hname.relative] at hprefixOf
    exact ⟨hdown, (List.prefix_append _ _).trans hprefixOf⟩

/-- What steps find does not depend on more of a tree than the way to it. -/
theorem mem_follow_congr {steps : List Step} (hsteps : ∀ step ∈ steps, step.GoesDown) (ht : t.Sound)
    (hu : u.Distinct) (hdt : t.find cwd dir = .ok (l, .dir)) (hdu : u.find cwd dir = .ok (l, .dir))
    (hpath : ".." ∉ pieces path) {m : String} (hagree : t.AgreeAbove u (tip l m))
    (h : m ∈ follow t cwd dir steps path) : m ∈ follow u cwd dir steps path := by
  induction steps generalizing path with
  | nil => exact h
  | cons step steps ih =>
    obtain ⟨hstep, hsteps⟩ := List.forall_mem_cons.mp hsteps
    obtain ⟨name, hmem, hm⟩ := List.mem_flatMap.mp h
    have hdown := down_joinText hpath (Step.isDownward_of_mem_names hstep ht hmem)
    have habove := (tip_prefix_of_mem_follow (l := l) hsteps ht hdown hm).2
    refine List.mem_flatMap.mpr ⟨name, ?_, ih hsteps hdown hm⟩
    exact Step.mem_names_congr hstep ht hu hdt hdu hpath (hagree.mono habove) hmem

/-! ### Patterns -/

theorem mem_pieces_leadOf {before : List String} (hbefore : ∀ p ∈ before, '/' ∉ p.toList)
    {p : String} (h : p ∈ pieces (leadOf before)) : p = "" ∨ p ∈ before := by
  by_cases hnil : before = []
  · rw [hnil] at h
    exact .inl (List.mem_singleton.mp h)
  · have hwritten : pieces (String.ofList (slashed before ++ ['/'])) = before ++ [""] := by
      have happend : String.ofList (slashed before ++ ['/']) =
          String.ofList (slashed before) ++ "/" :=
        String.ofList_append
      rw [happend, pieces_append_slash, pieces_slashed hnil hbefore]
    -- What is cut off starts at a slash, so the pieces before it stay whole.
    have hkept :
        p ∈ pieces (String.ofList (Text.dropEndWhile (· == '/') (slashed before ++ ['/']))) →
        p ∈ pieces (String.ofList (slashed before ++ ['/'])) := by
      obtain ⟨rest, hrest, hslashes⟩ :=
        Text.exists_dropEndWhile_append (· == '/') (slashed before ++ ['/'])
      intro hp
      cases rest with
      | nil => rwa [hrest, List.append_nil]
      | cons c cs =>
        have hc : c = '/' := by simpa using hslashes c List.mem_cons_self
        rw [hrest, hc, pieces, String.toList_ofList, Text.splitAt_append, List.map_append]
        rw [pieces, String.toList_ofList] at hp
        exact List.mem_append_left _ hp
    have hmem : p ∈ before ++ [""] := by
      rw [← hwritten]
      unfold leadOf at h
      rw [if_neg (by simpa using hnil)] at h
      dsimp only at h
      split at h
      · exact h
      · exact hkept h
    rcases List.mem_append.mp hmem with hmem | hmem
    · exact .inr hmem
    · exact .inl (List.mem_singleton.mp hmem)

theorem goesDown_of_mem_stepsOf {parts : List String}
    (hparts : ∀ p ∈ parts, p ≠ ".." ∧ '/' ∉ p.toList) :
    ∀ step ∈ stepsOf parts, step.GoesDown := by
  intro step hstep
  obtain ⟨p, hp, rfl⟩ := List.mem_map.mp hstep
  have hmem : p ∈ parts := by
    rcases List.mem_append.mp hp with hp | hp
    · exact (List.dropLast_sublist parts).subset (List.mem_filter.mp hp).1
    · exact List.mem_of_getLast? (by simpa using hp)
  obtain ⟨hup, hslash⟩ := hparts p hmem
  unfold Step.ofPart
  split
  · trivial
  · split
    · trivial
    · refine ⟨fun hhead => hslash (List.mem_of_mem_head? hhead), ?_⟩
      rw [pieces, Text.splitAt_of_notMem hslash, List.map_singleton, String.ofList_toList,
        List.mem_singleton]
      exact Ne.symm hup

theorem notMem_slash_of_mem_pieces {s p : String} (h : p ∈ pieces s) : '/' ∉ p.toList := by
  obtain ⟨piece, hpiece, rfl⟩ := List.mem_map.mp h
  rw [String.toList_ofList]
  exact Text.notMem_of_mem_splitAt hpiece

theorem down_leadOf {pattern : String} (h : ".." ∉ pieces pattern) :
    ".." ∉ pieces (leadOf (plainParts pattern)) := by
  have hplain : plainParts pattern ⊆ pieces pattern := (List.takeWhile_sublist _).subset
  intro hmem
  rcases mem_pieces_leadOf (fun p hp => notMem_slash_of_mem_pieces (hplain hp)) hmem with hempty |
    hmem
  · exact absurd hempty (by decide)
  · exact h (hplain hmem)

/-- A pattern without parent parts never goes up. -/
theorem goesDown_steps {pattern : String} (h : ".." ∉ pieces pattern) :
    ∀ step ∈ stepsOf ((pieces pattern).drop (plainParts pattern).length), step.GoesDown := by
  apply goesDown_of_mem_stepsOf
  intro p hp
  have hmem := List.mem_of_mem_drop hp
  refine ⟨?_, notMem_slash_of_mem_pieces hmem⟩
  rintro rfl
  exact h hmem

/-- The matches of a pattern without parent parts have none. -/
theorem down_of_mem_matchesOf {pattern m : String} (hpattern : ".." ∉ pieces pattern) (ht : t.Sound)
    (h : m ∈ matchesOf t cwd dir pattern) : ".." ∉ pieces m := by
  replace h := (List.mem_filter.mp h).1
  split at h
  · exact (tip_prefix_of_mem_follow (l := []) (goesDown_steps hpattern) ht
      (down_leadOf hpattern) h).1
  · obtain rfl : m = pattern := List.mem_singleton.mp (List.mem_ite_nil_right.mp h).2
    exact hpattern

/-- **Two trees that agree above the place of a match both have it or both lack it.** -/
theorem mem_matchesOf_congr {pattern m : String} (hpattern : ".." ∉ pieces pattern) (ht : t.Sound)
    (hu : u.Distinct) (hdt : t.find cwd dir = .ok (l, .dir)) (hdu : u.find cwd dir = .ok (l, .dir))
    (hagree : t.AgreeAbove u (tip l m)) (h : m ∈ matchesOf t cwd dir pattern) :
    m ∈ matchesOf u cwd dir pattern := by
  unfold matchesOf at h ⊢
  rw [List.mem_filter] at h ⊢
  refine ⟨?_, h.2⟩
  replace h := h.1
  split at h
  · next hmagic =>
    rw [if_pos hmagic]
    exact mem_follow_congr (goesDown_steps hpattern) ht hu hdt hdu (down_leadOf hpattern) hagree h
  · next hplain =>
    rw [if_neg hplain]
    obtain rfl : m = pattern := List.mem_singleton.mp (List.mem_ite_nil_right.mp h).2
    have hfind := find_congr hdt hdu hpattern hagree
    simp only [isDir, pathExists, hfind] at h ⊢
    exact h

end TwoTrees

/-! ### Patterns that end below a directory -/

/-- Names with slashes between them end with the last name. -/
theorem getLast?_slashed {name : String} (hname : name ≠ "") (names : List String) :
    (slashed (names ++ [name])).getLast? = name.toList.getLast? := by
  by_cases hnames : names = []
  · rw [hnames]
    rfl
  · obtain ⟨c, hc⟩ := Option.ne_none_iff_exists'.mp
      (mt List.getLast?_eq_none_iff.mp (mt String.toList_eq_nil_iff.mp hname))
    have hlast : (slashed [name]).getLast? = some c := hc
    rw [slashed_append hnames (List.cons_ne_nil name []), List.getLast?_append,
      List.getLast?_cons, hlast, hc]
    rfl

/-- The lead of a pattern is written as its names are. -/
theorem leadOf_of_isNamed {names : List String} (h : IsNamed names) (hne : names ≠ []) :
    leadOf names = String.ofList (slashed names) := by
  rcases List.eq_nil_or_concat' names with rfl | ⟨above, last, rfl⟩
  · exact absurd rfl hne
  · have hmem : last ∈ above ++ [last] := List.mem_append_right _ (List.mem_singleton_self last)
    obtain ⟨c, hc⟩ := Option.ne_none_iff_exists'.mp
      (mt List.getLast?_eq_none_iff.mp (mt String.toList_eq_nil_iff.mp (h.1 last hmem).1))
    obtain ⟨cs, hcs⟩ := List.getLast?_eq_some_iff.mp
      ((getLast?_slashed (h.1 last hmem).1 above).trans hc)
    have hslash : c ≠ '/' := by
      rintro rfl
      exact h.2 last hmem (List.mem_of_getLast? hc)
    rw [leadOf, if_neg (by simp), hcs]
    simp [hslash]

section Below

variable {names : List String} (h : IsNamed names)

include h

theorem pieces_below : pieces (String.ofList (slashed (names ++ ["**"]))) = names ++ ["**"] := by
  refine pieces_slashed (by simp) ?_
  intro part hpart
  rcases List.mem_append.mp hpart with hpart | hpart
  · exact h.2 part hpart
  · rw [List.mem_singleton.mp hpart]
    decide

/-- The plain parts of the pattern are the names. -/
theorem plainParts_below (hplain : ∀ name ∈ names, isPattern name = false) :
    plainParts (String.ofList (slashed (names ++ ["**"]))) = names := by
  rw [plainParts, pieces_below h,
    List.takeWhile_append_of_pos (fun name hname => by rw [hplain name hname]; rfl),
    List.takeWhile_cons_of_neg (by decide), List.append_nil]

theorem slashed_ne_empty (hne : names ≠ []) : String.ofList (slashed names) ≠ "" := by
  intro hempty
  have hpieces := pieces_slashed hne h.2
  rw [hempty] at hpieces
  exact (h.1 "" (hpieces ▸ List.mem_singleton_self "")).1 rfl

/-- A pattern that ends in `**` matches what is written before it, even where there is no such
directory. -/
theorem matchesOf_below (hne : names ≠ []) (hplain : ∀ name ∈ names, isPattern name = false)
    {t : FileTree} {cwd : Location} {root : String}
    (hnone : ∀ l, t.find cwd (joinNonEmpty root (String.ofList (slashed names))) ≠ .ok (l, .dir)) :
    matchesOf t cwd root (String.ofList (slashed (names ++ ["**"]))) =
      [joinText (String.ofList (slashed names)) ""] := by
  have hpattern : isPattern (String.ofList (slashed (names ++ ["**"]))) = true := by
    have hmem : "**" ∈ pieces (String.ofList (slashed (names ++ ["**"]))) := by
      simp [pieces_below h]
    obtain ⟨piece, hpiece, hstars⟩ := List.mem_map.mp hmem
    have hstar : '*' ∈ piece := by
      rw [← @String.toList_ofList piece, hstars]
      decide
    exact List.any_eq_true.mpr ⟨'*', (Text.infix_of_mem_splitAt hpiece).subset hstar, rfl⟩
  have hbelow : t.listBelow cwd (joinNonEmpty root (String.ofList (slashed names))) = [] := by
    unfold listBelow
    split
    · next l hfind => exact absurd hfind (hnone l)
    · rfl
  have hsteps : stepsOf ["**"] = [.below] := by decide
  rw [matchesOf]
  dsimp only
  rw [if_pos hpattern, plainParts_below h hplain, pieces_below h, List.drop_left,
    leadOf_of_isNamed h hne, hsteps, follow, Step.names, hbelow]
  simp [follow, joinText_ne_empty (slashed_ne_empty h hne)]

/-- Such a match is written as a path of the names. -/
theorem ofString_joinText_slashed (hne : names ≠ []) :
    ofString (joinText (String.ofList (slashed names)) "") = ⟨.here, names⟩ := by
  have hdown := isDownward_slashed h hne
  have hrelative : (ofString (joinText (String.ofList (slashed names)) "")).isAbsolute = false := by
    rw [Bool.eq_false_iff, ne_eq, isAbsolute_ofString_iff,
      head?_joinText (slashed_ne_empty h hne) isDownward_empty.relative]
    exact hdown.relative
  have hparts : (ofString (joinText (String.ofList (slashed names)) "")).parts = names := by
    refine (meaningful_joinText _ isDownward_empty.relative).trans ?_
    rw [meaningful_slashed h hne]
    exact List.append_nil names
  have hanchor : (ofString (joinText (String.ofList (slashed names)) "")).anchor = .here := by
    simpa [isAbsolute] using hrelative
  generalize ofString (joinText (String.ofList (slashed names)) "") = p at hparts hanchor
  obtain ⟨anchor, parts⟩ := p
  cases hparts
  cases hanchor
  rfl

end Below

end Glob

end StyleGuide
