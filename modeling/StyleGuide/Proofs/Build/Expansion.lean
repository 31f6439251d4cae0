import StyleGuide.Proofs.Build.Repeatable

/-!
# The files that patterns expand to

The paths that some patterns yield are looked at one after the other: pattern by pattern, and for
each pattern in the order of its matches as texts. A path is taken where it comes up first, if there
is a file (`expandWith_eq`). So the result is the ordered union of what the patterns yield
(`IsOrderedUnion`), which is one list and no other (`IsOrderedUnion.unique`).

Looking at a path fails if it is too long for the system, and then the whole search does
(`search_eq`). Both together say what a search gives, whatever finds the matches of a pattern
(`search_orderedUnion`).
-/

namespace StyleGuide

/-! ### Looking at a path -/

namespace Workspace

def HasFile (ws : Workspace) (p : Path) : Prop :=
  ∃ place bytes, ws.tree.find ws.cwd p.text = .ok (place, .file bytes)

/-- The system does not even look at the path, because it or a name in it is too long. -/
def IsOverlong (ws : Workspace) (p : Path) : Prop := ws.tree.find ws.cwd p.text = .error .tooLong

instance (ws : Workspace) (p : Path) : Decidable (ws.IsOverlong p) :=
  inferInstanceAs (Decidable (_ = Except.error FileTree.WalkFault.tooLong))

variable {ws : Workspace} {p : Path}

/-- Looking for a file fails exactly at the paths that are too long. -/
theorem checkFile_eq_tooLong_iff : ws.checkFile p = .error .tooLong ↔ ws.IsOverlong p := by
  rw [checkFile, FileTree.isFile, IsOverlong]
  cases hfind : ws.tree.find ws.cwd p.text with
  | error fault => cases fault <;> simp [FileTree.isFileIn]
  | ok found => simp [FileTree.isFileIn]

end Workspace

namespace Sources

variable (glob : String → List String) (base : Path)

/-! ### What patterns yield -/

/-- The pattern of this number yields the path, by way of the match. -/
def Yields (patterns : List String) (i : Nat) (m : String) (p : Path) : Prop :=
  ∃ pattern, patterns[i]? = some pattern ∧ m ∈ glob pattern ∧ base.join (.ofString m) = p

/-- The pattern of this number is the first that yields the path, and the match is the first of its
matches, in the order of texts, by way of which it does. -/
structure YieldsFirst (patterns : List String) (i : Nat) (m : String) (p : Path) : Prop where
  yields : Yields glob base patterns i m p
  first : ∀ j n, Yields glob base patterns j n p → i < j ∨ i = j ∧ m ≤ n

/-- The files among the paths that some patterns yield, each once, in the order in which they are
yielded first. -/
structure IsOrderedUnion (isFile : Path → Prop) (patterns : List String) (paths : List Path) :
    Prop where
  nodup : paths.Nodup
  mem_iff : ∀ p, p ∈ paths ↔ isFile p ∧ ∃ pattern ∈ patterns, ∃ m ∈ glob pattern,
    base.join (.ofString m) = p
  ordered : paths.Pairwise fun p q => ∃ i m j n, YieldsFirst glob base patterns i m p ∧
    YieldsFirst glob base patterns j n q ∧ (i < j ∨ i = j ∧ m < n)

variable {glob base} {isFile : Path → Bool} {patterns : List String}

/-- A path has one first pattern and one first match of it. -/
theorem YieldsFirst.unique {p : Path} {i j : Nat} {m n : String}
    (hm : YieldsFirst glob base patterns i m p)
    (hn : YieldsFirst glob base patterns j n p) : i = j ∧ m = n := by
  rcases hm.first j n hn.yields with hlt | ⟨hij, hmn⟩
  · rcases hn.first i m hm.yields with hgt | ⟨hji, -⟩ <;> omega
  · rcases hn.first i m hm.yields with hgt | ⟨-, hnm⟩
    · omega
    · exact ⟨hij, String.le_antisymm hmn hnm⟩

/-- There is only one ordered union. -/
theorem IsOrderedUnion.unique {isFile : Path → Prop} {paths others : List Path}
    (h : IsOrderedUnion glob base isFile patterns paths)
    (h' : IsOrderedUnion glob base isFile patterns others) :
    paths = others := by
  have hperm : paths.Perm others := by
    rw [List.perm_ext_iff_of_nodup h.nodup h'.nodup]
    intro p
    rw [h.mem_iff, h'.mem_iff]
  refine hperm.eq_of_pairwise ?_ h.ordered h'.ordered
  -- No two paths come before each other.
  rintro p q - - ⟨i, m, j, n, hp, hq, hlt⟩ ⟨j', n', i', m', hq', hp', hgt⟩
  obtain ⟨rfl, rfl⟩ := hp.unique hp'
  obtain ⟨rfl, rfl⟩ := hq.unique hq'
  exfalso
  rcases hlt with hlt | ⟨rfl, hlt⟩
  · omega
  · rcases hgt with hgt | ⟨-, hgt⟩
    · omega
    · exact String.lt_asymm hlt hgt

/-! ### One path after the other -/

/-- The matches of some patterns in the order in which they are looked at, each with the number of
its pattern. -/
def sightings (glob : String → List String) (patterns : List String) : List (Nat × String) :=
  patterns.zipIdx.flatMap fun (pattern, i) => (sortMatches (glob pattern)).map fun m => (i, m)

/-- The first sighting comes no later than the second. -/
def NoLater (s t : Nat × String) : Prop := s.1 < t.1 ∨ s.1 = t.1 ∧ s.2 ≤ t.2

def pathAt (base : Path) (s : Nat × String) : Path := base.join (.ofString s.2)

/-- The sightings are the matches of all patterns, each with the index of its pattern. -/
theorem mem_sightings (base : Path) {s : Nat × String} :
    s ∈ sightings glob patterns ↔ Yields glob base patterns s.1 s.2 (pathAt base s) := by
  obtain ⟨i, m⟩ := s
  simp only [sightings, List.mem_flatMap, List.mem_map, Prod.mk.injEq, Prod.exists, Yields, pathAt]
  constructor
  · rintro ⟨pattern, j, hj, n, hn, rfl, rfl⟩
    exact ⟨pattern, List.mk_mem_zipIdx_iff_getElem?.mp hj, mem_sortMatches_iff.mp hn, trivial⟩
  · rintro ⟨pattern, hi, hm, -⟩
    exact ⟨pattern, i, List.mk_mem_zipIdx_iff_getElem?.mpr hi, m, mem_sortMatches_iff.mpr hm,
      rfl, rfl⟩

/-- Sightings come by pattern and, for one pattern, in the order of the matches. -/
theorem pairwise_sightings (glob : String → List String) (patterns : List String) :
    (sightings glob patterns).Pairwise NoLater := by
  refine List.pairwise_flatMap.mpr ⟨?_, ?_⟩
  · rintro ⟨pattern, i⟩ -
    exact List.pairwise_map.mpr ((pairwise_sortMatches _).imp fun h => .inr ⟨rfl, h⟩)
  · have hnumbers : (patterns.zipIdx.map Prod.snd).Pairwise (· < ·) := by
      rw [List.zipIdx_map_snd]
      exact List.pairwise_lt_range' 1
    refine (List.pairwise_map.mp hnumbers).imp ?_
    rintro ⟨pattern, i⟩ ⟨later, j⟩ hij s hs t ht
    obtain ⟨m, -, rfl⟩ := List.mem_map.mp hs
    obtain ⟨n, -, rfl⟩ := List.mem_map.mp ht
    exact .inl hij

theorem map_snd_sightings (glob : String → List String) (patterns : List String) :
    (sightings glob patterns).map Prod.snd = patterns.flatMap fun pattern =>
      sortMatches (glob pattern) := by
  conv => rhs; rw [← List.zipIdx_map_fst 0 patterns, List.flatMap_map]
  simp [sightings, List.map_flatMap, Function.comp_def]

/-! ### The order of the files -/

/-- In a list that is ordered, the items at which a value comes up first, in their order. -/
theorem exists_map_eq_eraseDups {α κ : Type} [DecidableEq κ] {r : α → α → Prop} (hrefl : ∀ x, r x x)
    (f : α → κ) {xs : List α} (h : xs.Pairwise r) : ∃ ys : List α, ys.Sublist xs ∧
      ys.map f = (xs.map f).eraseDups ∧ ∀ y ∈ ys, ∀ x ∈ xs, f x = f y → r y x := by
  induction xs using List.reverseRecOn with
  | nil => exact ⟨[], List.nil_sublist [], rfl, by simp⟩
  | append_singleton xs x ih =>
    obtain ⟨hxs, -, hlast⟩ := List.pairwise_append.mp h
    obtain ⟨ys, hsub, hmap, hfirst⟩ := ih hxs
    have hstill : ∀ y ∈ ys, ∀ z ∈ xs ++ [x], f z = f y → r y z := by
      intro y hy z hz hyz
      rcases List.mem_append.mp hz with hz | hz
      · exact hfirst y hy z hz hyz
      · exact hlast y (hsub.subset hy) z hz
    rw [List.map_append, List.map_singleton, eraseDups_concat]
    split
    · exact ⟨ys, hsub.trans (List.sublist_append_left xs [x]), hmap, hstill⟩
    · next hnew =>
      refine ⟨ys ++ [x], hsub.append_right [x], by rw [List.map_append, hmap]; rfl, ?_⟩
      intro y hy z hz hyz
      rcases List.mem_append.mp hy with hy | hy
      · exact hstill y hy z hz hyz
      · obtain rfl := List.mem_singleton.mp hy
        rcases List.mem_append.mp hz with hz | hz
        · exact absurd (List.mem_map.mpr ⟨z, hz, hyz⟩) hnew
        · rw [List.mem_singleton.mp hz]
          exact hrefl y

/-- The files of some patterns come from the sightings at which they are yielded first, in order. -/
theorem exists_firstSightings (glob : String → List String) (isFile : Path → Bool) (base : Path)
    (patterns : List String) : ∃ firsts : List (Nat × String), firsts.Pairwise NoLater ∧
      firsts.map (pathAt base) = expandWith glob isFile base patterns ∧
      ∀ s ∈ firsts, YieldsFirst glob base patterns s.1 s.2 (pathAt base s) := by
  have hsorted := (pairwise_sightings glob patterns).filter fun s => isFile (pathAt base s)
  obtain ⟨firsts, hsub, hmap, hfirst⟩ := exists_map_eq_eraseDups
    (fun s => .inr ⟨rfl, String.le_refl s.2⟩) (pathAt base) hsorted
  refine ⟨firsts, hsorted.sublist hsub, ?_, ?_⟩
  · rw [hmap, expandWith_eq, ← List.map_flatMap, ← map_snd_sightings, List.map_map, List.filter_map]
    rfl
  · intro s hs
    obtain ⟨hsighted, hfile⟩ := List.mem_filter.mp (hsub.subset hs)
    refine ⟨(mem_sightings base).mp hsighted, ?_⟩
    rintro j n ⟨pattern, hj, hn, hpath⟩
    -- Another sighting of the same path is one of a file too.
    have hsame : pathAt base (j, n) = pathAt base s := hpath
    refine hfirst s hs (j, n) (List.mem_filter.mpr ⟨?_, ?_⟩) hsame
    · exact (mem_sightings base).mpr ⟨pattern, hj, hn, rfl⟩
    · rw [hsame]
      exact hfile

theorem nodup_expandWith (glob : String → List String) (isFile : Path → Bool) (base : Path)
    (patterns : List String) : (expandWith glob isFile base patterns).Nodup := by
  rw [expandWith_eq]
  exact nodup_eraseDups _

/-- The paths stand in the order of their first sightings. -/
theorem pairwise_expandWith (glob : String → List String) (isFile : Path → Bool) (base : Path)
    (patterns : List String) : (expandWith glob isFile base patterns).Pairwise fun p q =>
      ∃ i m j n, YieldsFirst glob base patterns i m p ∧ YieldsFirst glob base patterns j n q ∧
        (i < j ∨ i = j ∧ m < n) := by
  have hdistinct := nodup_expandWith glob isFile base patterns
  obtain ⟨firsts, hordered, hfiles, hyields⟩ := exists_firstSightings glob isFile base patterns
  rw [← hfiles] at hdistinct ⊢
  rw [List.pairwise_map]
  refine (hordered.and (List.pairwise_map.mp hdistinct)).imp_of_mem ?_
  rintro s t hs ht ⟨hst, hne⟩
  refine ⟨s.1, s.2, t.1, t.2, hyields s hs, hyields t ht, hst.imp_right ?_⟩
  rintro ⟨hnumber, hle⟩
  refine ⟨hnumber, Std.lt_of_le_of_ne hle ?_⟩
  intro hmatch
  exact hne (congrArg (fun m => base.join (.ofString m)) hmatch)

/-- The files that are found are the ordered union of the matches, whatever finds the matches. -/
theorem isOrderedUnion_expandWith (glob : String → List String) (isFile : Path → Bool) (base : Path)
    (patterns : List String) : IsOrderedUnion glob base (isFile · = true) patterns
      (expandWith glob isFile base patterns) where
  nodup := nodup_expandWith glob isFile base patterns
  mem_iff p := by simp [expandWith_eq, mem_sortMatches_iff, and_comm]
  ordered := pairwise_expandWith glob isFile base patterns

/-- More patterns at the end add files at the end. -/
theorem expandWith_prefixOf (ps qs : List String) :
    expandWith glob isFile base ps <+: expandWith glob isFile base (ps ++ qs) := by
  rw [expandWith_eq, expandWith_eq, List.flatMap_append, List.filter_append, List.eraseDups_append]
  exact List.prefix_append _ _

/-! ### The search as it runs -/

/-- Look at a match: its path is added if it is new and there is a file. -/
def look (ws : Workspace) (base : Path) (found : List Path) (m : String) :
    Except FileFault (List Path) :=
  let p := base.join (.ofString m)
  if found.contains p then .ok found
  else (ws.checkFile p).map fun isFile => if isFile then found ++ [p] else found

/-- Look at the matches of some patterns one after the other, where `glob` finds the matches of one
pattern. -/
def search (ws : Workspace) (glob : String → List String) (base : Path) (patterns : List String) :
    Except FileFault (List Path) :=
  patterns.foldlM (fun found pattern => (sortMatches (glob pattern)).foldlM (look ws base) found) []

variable {ws : Workspace}

/-- The path of the match is too long to be looked at. -/
def isRefused (ws : Workspace) (base : Path) (m : String) : Bool :=
  ws.checkFile (base.join (.ofString m)) = .error .tooLong

/-- One look adds a match as `addMatch` does, unless its path is refused. -/
theorem look_eq {found : List Path} (hfound : ∀ p ∈ found, ws.isFile p = true) (m : String) :
    look ws base found m =
      if isRefused ws base m then .error .tooLong else .ok (addMatch ws.isFile base found m) := by
  unfold look addMatch isRefused
  dsimp only
  cases hcheck : ws.checkFile (base.join (.ofString m)) with
  | error fault =>
    -- What was found before is a file, so the path is new.
    obtain rfl := checkFile_eq_error hcheck
    have hnot : base.join (.ofString m) ∉ found := by
      intro hmem
      have hfile := hfound _ hmem
      rw [Workspace.isFile, hcheck] at hfile
      cases hfile
    simp [hnot, Except.map]
  | ok isFile =>
    have hfile : ws.isFile (base.join (.ofString m)) = isFile := by
      rw [Workspace.isFile, hcheck]
      rfl
    by_cases hmem : base.join (.ofString m) ∈ found
    · simp [hmem]
    · cases isFile <;> simp [hmem, hfile, Except.map]

/-- A search through matches is stopped by the first one that is refused, and else adds them all.
-/
theorem foldlM_look (seen : List Path) (ms : List String) :
    ms.foldlM (look ws base) (seen.filter ws.isFile).eraseDups =
      if ms.any (isRefused ws base) then .error .tooLong
      else .ok (ms.foldl (addMatch ws.isFile base) (seen.filter ws.isFile).eraseDups) := by
  induction ms generalizing seen with
  | nil => rfl
  | cons m ms ih =>
    have hfound : ∀ p ∈ (seen.filter ws.isFile).eraseDups, ws.isFile p = true :=
      fun p hp => (List.mem_filter.mp (List.mem_eraseDups.mp hp)).2
    rw [List.foldlM_cons, look_eq hfound, List.any_cons, List.foldl_cons, addMatch_eraseDups]
    cases isRefused ws base m with
    | true => rfl
    | false => exact ih _

theorem foldlM_flatMap {α β γ ε : Type} {f : α → List β} {step : γ → β → Except ε γ} (xs : List α)
    (c : γ) :
    (xs.flatMap f).foldlM step c = xs.foldlM (fun c x => (f x).foldlM step c) c := by
  induction xs generalizing c with
  | nil => rfl
  | cons x xs ih =>
    rw [List.flatMap_cons, List.foldlM_append, List.foldlM_cons]
    exact congrArg _ (funext fun c => ih c)

/-- **The search as it runs** gives the files of the patterns, unless a match is too long to be
looked at. -/
theorem search_eq (ws : Workspace) (glob : String → List String) (base : Path)
    (patterns : List String) :
    search ws glob base patterns =
      if patterns.any fun pattern => (glob pattern).any (isRefused ws base) then .error .tooLong
      else .ok (expandWith glob ws.isFile base patterns) := by
  have hrun := @foldlM_look base ws [] (patterns.flatMap fun pattern => sortMatches (glob pattern))
  have hany : ∀ pattern, (sortMatches (glob pattern)).any (isRefused ws base) =
      (glob pattern).any (isRefused ws base) :=
    fun pattern => (List.mergeSort_perm _ _).any_eq
  rw [foldlM_flatMap, List.foldl_flatMap, List.any_flatMap] at hrun
  simp only [hany] at hrun
  exact hrun

/-- Some match is refused exactly if a pattern yields a path that is too long. -/
theorem any_isRefused_iff :
    (patterns.any fun pattern => (glob pattern).any (isRefused ws base)) = true ↔
      ∃ pattern ∈ patterns, ∃ m ∈ glob pattern, ws.IsOverlong (base.join (.ofString m)) := by
  simp [isRefused, Workspace.checkFile_eq_tooLong_iff]

/-- Where every pattern can be looked for, the search finds the files of a run. -/
theorem expand_eq_search (h : ∀ p ∈ patterns, Glob.fault? base.text p = none) :
    expand ws base patterns = search ws (ws.glob base) base patterns := by
  rw [expand_eq h, search_eq]
  rfl

/-- **Patterns expand to an ordered union.** The search gives the files among the paths that the
patterns yield, in the order in which they are yielded first, and more patterns only add files
behind these. It fails exactly if a match is too long to be looked at. The files of a run are found
by this search. -/
theorem search_orderedUnion (ws : Workspace) (glob : String → List String) (base : Path) :
    (∀ patterns, (∀ pattern ∈ patterns, ∀ m ∈ glob pattern,
      ¬ws.IsOverlong (base.join (.ofString m))) →
      ∃ paths, search ws glob base patterns = .ok paths ∧
        ∀ others, IsOrderedUnion glob base ws.HasFile patterns others ↔ others = paths) ∧
    (∀ patterns, (∃ pattern ∈ patterns, ∃ m ∈ glob pattern,
      ws.IsOverlong (base.join (.ofString m))) → search ws glob base patterns = .error .tooLong) ∧
    (∀ ps qs paths, search ws glob base (ps ++ qs) = .ok paths →
      ∃ first, search ws glob base ps = .ok first ∧ first <+: paths) ∧
    ∀ patterns, (∀ p ∈ patterns, Glob.fault? base.text p = none) →
      expand ws base patterns = search ws (ws.glob base) base patterns := by
  have hfile : ws.HasFile = (ws.isFile · = true) :=
    funext fun p => propext Workspace.isFile_iff.symm
  refine ⟨?_, ?_, ?_, fun patterns => expand_eq_search⟩
  · intro patterns hshort
    have hnone : ¬∃ pattern ∈ patterns, ∃ m ∈ glob pattern,
        ws.IsOverlong (base.join (.ofString m)) := by
      simpa using hshort
    refine ⟨expandWith glob ws.isFile base patterns, ?_, ?_⟩
    · rw [search_eq, if_neg (mt any_isRefused_iff.mp hnone)]
    · have hunion := isOrderedUnion_expandWith glob ws.isFile base patterns
      rw [hfile]
      exact fun others => ⟨fun h => h.unique hunion, fun h => h ▸ hunion⟩
  · intro patterns hlong
    rw [search_eq, if_pos (any_isRefused_iff.mpr hlong)]
  · intro ps qs paths h
    rw [search_eq] at h ⊢
    split at h
    · cases h
    · next hshort =>
      cases h
      rw [List.any_append, Bool.or_eq_true, not_or] at hshort
      exact ⟨_, if_neg hshort.1, expandWith_prefixOf ps qs⟩

/-! ### Overlapping patterns and a long name -/

/-- A directory with two files, and directories in it. -/
def sampleShelf : Workspace where
  tree := ⟨[(["work"], .dir), (["work", "a.js"], .file []), (["work", "b.js"], .file []),
    (["work", "out"], .dir), (["work", "out", "sub"], .dir)]⟩
  cwd := ["work"]
  home := ["home"]

/-- The matches of two patterns that overlap. All others lead to a name that the system does not
take. -/
def sampleGlob (pattern : String) : List String :=
  if pattern = "here" then ["out", "b.js", "./a.js"]
  else if pattern = "there" then ["b.js", "a.js", "/work/a.js"]
  else [Glob.joinText (String.ofList (slashed BuildJob.longNames)) ""]

theorem isOverlong_sampleShelf : sampleShelf.IsOverlong
    ((Path.ofString ".").join
      (.ofString (Glob.joinText (String.ofList (slashed BuildJob.longNames)) ""))) := by
  rw [← Workspace.checkFile_eq_tooLong_iff]
  exact @BuildJob.checkFile_below sampleShelf ["work"] (.ofString ".") _ .tooLong
    (FileTree.isWritten_ofString ".") (by decide +kernel) BuildJob.isNamed_longNames
    (by simp [BuildJob.longNames]) BuildJob.textFault?_longNames (by decide +kernel)

theorem search_sampleShelf : search sampleShelf sampleGlob (.ofString ".") ["here", "there"] =
    .ok [.ofString "a.js", .ofString "b.js", .ofString "/work/a.js"] := by
  have hhere : sortMatches (sampleGlob "here") = ["./a.js", "b.js", "out"] :=
    sortMatches_eq (by decide) (by decide)
  have hthere : sortMatches (sampleGlob "there") = ["/work/a.js", "a.js", "b.js"] :=
    sortMatches_eq (by decide) (by decide)
  simp only [search, List.foldlM_cons, List.foldlM_nil, hhere, hthere]
  exact eq_ok_of_toOption (by decide +kernel)

/-- Two patterns that yield the same files, one of them also by another path. -/
theorem search_orderedUnion_overlap :
    let base : Path := .ofString "."
    let paths : List Path := [.ofString "a.js", .ofString "b.js", .ofString "/work/a.js"]
    (search sampleShelf sampleGlob base ["here", "there"] = .ok paths ∧
      IsOrderedUnion sampleGlob base sampleShelf.HasFile ["here", "there"] paths) ∧
    (∃ first, search sampleShelf sampleGlob base ["here"] = .ok first ∧ first <+: paths) ∧
    search sampleShelf sampleGlob base ["here", "long"] = .error .tooLong ∧
    expand sampleShelf base ["a.js"] =
        search sampleShelf (sampleShelf.glob base) base ["a.js"] := by
  intro base paths
  obtain ⟨hshort, hlong, hmore, hrun⟩ := search_orderedUnion sampleShelf sampleGlob base
  obtain ⟨found, hfound, hunion⟩ := hshort ["here", "there"] (by decide +kernel)
  obtain rfl : found = paths := Except.ok.inj (hfound.symm.trans search_sampleShelf)
  refine ⟨⟨hfound, (hunion paths).mpr rfl⟩, hmore ["here"] ["there"] paths hfound, ?_, ?_⟩
  · exact hlong ["here", "long"] ⟨"long", by simp, _, List.mem_singleton_self _,
      isOverlong_sampleShelf⟩
  · exact hrun ["a.js"] (by decide +kernel)

/-- A pattern that ends in `**` matches what stands before it, whether it is there or not. If that
is too long a name, the search fails, although there is no file to be found. -/
theorem expand_error_of_longName :
    let base : Path := .ofString "."
    let pattern := String.ofList (slashed (BuildJob.longNames ++ ["**"]))
    expand sampleShelf base [pattern] = .error .tooLong ∧
      ¬∃ paths, expand sampleShelf base [pattern] = .ok paths ∧
        IsOrderedUnion (sampleShelf.glob base) base sampleShelf.HasFile [pattern] paths := by
  intro base pattern
  have herror : expand sampleShelf base [pattern] = .error .tooLong :=
    @BuildJob.paths_longNameJob ["work"] sampleShelf .tooLong (by decide +kernel)
      (by decide +kernel)
  refine ⟨herror, ?_⟩
  rintro ⟨paths, hpaths, -⟩
  cases herror.symm.trans hpaths

end Sources

end StyleGuide
