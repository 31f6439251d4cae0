import Mathlib.Data.List.Induction
import StyleGuide.Proofs.Catalog.Groups
import StyleGuide.Proofs.Outcomes
import StyleGuide.Sources

/-!
# The sources of a run

The files of a run depend only on which of its matches are files: matches are taken in order, and
one that comes twice is taken once (`expandWith_eq`). So if one run sees more files than another,
its sources are those of the other with more files between them (`filter_expandWith`), and if these
hold nothing, it finds the same fragments (`load_filter`).
-/

namespace StyleGuide.Sources

/-! ### Matches in order -/

/-- Matches are in order. -/
theorem pairwise_sortMatches (ms : List String) : (sortMatches ms).Pairwise (· ≤ ·) := by
  have hsorted := @List.pairwise_mergeSort String (fun a b => decide (a ≤ b))
    (fun a b c hab hbc =>
      decide_eq_true (String.le_trans (of_decide_eq_true hab) (of_decide_eq_true hbc)))
    (fun a b => by simpa using String.le_total a b) ms
  exact hsorted.imp of_decide_eq_true

/-- Sorting gives the one list in order that has the same items. -/
theorem sortMatches_eq {ms ns : List String} (hns : ns.Pairwise (· ≤ ·)) (hperm : ms.Perm ns) :
    sortMatches ms = ns :=
  ((List.mergeSort_perm ms _).trans hperm).eq_of_pairwise (fun _ _ _ _ => String.le_antisymm)
    (pairwise_sortMatches ms) hns

theorem mem_sortMatches_iff {m : String} {ms : List String} : m ∈ sortMatches ms ↔ m ∈ ms :=
  List.mem_mergeSort

/-- Two ordered lists with the same items differ only in how often they have them. -/
theorem eraseDups_eq_of_pairwise {ms ns : List String} (hms : ms.Pairwise (· ≤ ·))
    (hns : ns.Pairwise (· ≤ ·)) (h : ∀ m, m ∈ ms ↔ m ∈ ns) : ms.eraseDups = ns.eraseDups := by
  have hperm : ms.eraseDups.Perm ns.eraseDups := by
    rw [List.perm_ext_iff_of_nodup (nodup_eraseDups ms) (nodup_eraseDups ns)]
    intro m
    rw [List.mem_eraseDups, List.mem_eraseDups, h]
  exact hperm.eq_of_pairwise (fun a b _ _ => String.le_antisymm)
    (hms.sublist (eraseDups_sublist ms))
    (hns.sublist (eraseDups_sublist ns))

/-! ### Taking matches -/

variable {isFile isFile' : Path → Bool} {base : Path} {found : List Path}

theorem addMatch_of_not {m : String} (h : isFile (base.join (.ofString m)) = false) :
    addMatch isFile base found m = found := by
  simp [addMatch, h]

theorem mem_addMatch_of_mem {p : Path} (h : p ∈ found) (m : String) :
    p ∈ addMatch isFile base found m := by
  unfold addMatch
  dsimp only
  split
  · exact h
  · exact List.mem_append_left _ h

/-- A match with a file is found. -/
theorem mem_foldl_addMatch {ms : List String} {m : String} (hm : m ∈ ms)
    (hfile : isFile (base.join (.ofString m)) = true) :
    base.join (.ofString m) ∈ ms.foldl (addMatch isFile base) found := by
  induction ms using List.reverseRecOn with
  | nil => exact absurd hm List.not_mem_nil
  | append_singleton ms n ih =>
    rw [List.foldl_concat]
    rcases List.mem_append.mp hm with hm | hm
    · exact mem_addMatch_of_mem (ih hm) n
    · obtain rfl := List.mem_singleton.mp hm
      unfold addMatch
      dsimp only
      split
      · next h => simpa [hfile] using h
      · exact List.mem_append_right _ (List.mem_singleton_self _)

/-- A match that comes again is not taken again. -/
theorem foldl_addMatch_eraseDups (ms : List String) :
    ms.eraseDups.foldl (addMatch isFile base) found = ms.foldl (addMatch isFile base) found := by
  induction ms using List.reverseRecOn with
  | nil => rfl
  | append_singleton ms m ih =>
    rw [eraseDups_concat, List.foldl_concat]
    split
    · next hm =>
      rw [ih]
      cases hfile : isFile (base.join (.ofString m)) with
      | false => rw [addMatch_of_not hfile]
      | true =>
        have htaken : base.join (.ofString m) ∈ ms.foldl (addMatch isFile base) found :=
          mem_foldl_addMatch hm hfile
        rw [addMatch, if_pos (by simp [htaken])]
    · rw [List.foldl_concat, ih]

/-- Matches without a file make no difference. -/
theorem foldl_addMatch_filter (ms : List String) :
    (ms.filter fun m => isFile (base.join (.ofString m))).foldl (addMatch isFile base) found =
      ms.foldl (addMatch isFile base) found := by
  rw [List.foldl_filter]
  congr 1
  funext found m
  split
  · rfl
  · next hfile => rw [addMatch_of_not (Bool.eq_false_iff.mpr hfile)]

/-- What is taken from ordered matches depends only on which of them are files. -/
theorem foldl_addMatch_congr {ms ns : List String} (hms : ms.Pairwise (· ≤ ·))
    (hns : ns.Pairwise (· ≤ ·))
    (h : ∀ m, isFile (base.join (.ofString m)) = true → (m ∈ ms ↔ m ∈ ns)) :
    ms.foldl (addMatch isFile base) found = ns.foldl (addMatch isFile base) found := by
  rw [← foldl_addMatch_filter ms, ← foldl_addMatch_filter ns, ← foldl_addMatch_eraseDups,
    ← foldl_addMatch_eraseDups (List.filter _ ns)]
  congr 1
  apply eraseDups_eq_of_pairwise (hms.filter _) (hns.filter _)
  intro m
  rw [List.mem_filter, List.mem_filter]
  exact and_congr_left (h m)

theorem filter_addMatch {m : String}
    (h : isFile (base.join (.ofString m)) = true → isFile' (base.join (.ofString m)) = true) :
    (addMatch isFile' base found m).filter isFile =
      addMatch isFile base (found.filter isFile) m := by
  cases hfile : isFile (base.join (.ofString m)) with
  | false =>
    rw [addMatch_of_not hfile]
    unfold addMatch
    dsimp only
    split
    · rfl
    · rw [List.filter_append, List.filter_cons_of_neg (by simp [hfile]), List.filter_nil,
        List.append_nil]
  | true =>
    have hmem : (found.filter isFile).contains (base.join (.ofString m)) =
        found.contains (base.join (.ofString m)) := by
      simp [hfile]
    unfold addMatch
    dsimp only
    rw [hmem, h hfile, hfile]
    split
    · rfl
    · rw [List.filter_append, List.filter_cons_of_pos hfile, List.filter_nil]

/-- With fewer files fewer are found, and these in the same order. -/
theorem filter_foldl_addMatch {ms : List String}
    (h : ∀ m ∈ ms, isFile (base.join (.ofString m)) = true →
      isFile' (base.join (.ofString m)) = true) :
    (ms.foldl (addMatch isFile' base) found).filter isFile =
      ms.foldl (addMatch isFile base) (found.filter isFile) := by
  induction ms generalizing found with
  | nil => rfl
  | cons m ms ih =>
    obtain ⟨hm, hms⟩ := List.forall_mem_cons.mp h
    rw [List.foldl_cons, List.foldl_cons, ih hms, filter_addMatch hm]

/-- **The files of a run that sees more**: those that the other run sees are its files, in order. -/
theorem filter_expandWith {glob glob' : String → List String} {patterns : List String}
    (hfile : ∀ p ∈ patterns, ∀ m ∈ glob' p,
      isFile (base.join (.ofString m)) = true → isFile' (base.join (.ofString m)) = true)
    (hmatch : ∀ p ∈ patterns, ∀ m, isFile (base.join (.ofString m)) = true →
      (m ∈ glob p ↔ m ∈ glob' p)) :
    (expandWith glob' isFile' base patterns).filter isFile =
      expandWith glob isFile base patterns := by
  have hrun : ∀ found : List Path,
      (patterns.foldl (fun found p => (sortMatches (glob' p)).foldl (addMatch isFile' base) found)
        found).filter isFile =
      patterns.foldl (fun found p => (sortMatches (glob p)).foldl (addMatch isFile base) found)
        (found.filter isFile) := by
    induction patterns with
    | nil => exact fun _ => rfl
    | cons p ps ih =>
      intro found
      obtain ⟨hfileHere, hfileLater⟩ := List.forall_mem_cons.mp hfile
      obtain ⟨hmatchHere, hmatchLater⟩ := List.forall_mem_cons.mp hmatch
      rw [List.foldl_cons, List.foldl_cons, ih hfileLater hmatchLater,
        filter_foldl_addMatch fun m hm => hfileHere m (mem_sortMatches_iff.mp hm)]
      congr 1
      apply foldl_addMatch_congr (pairwise_sortMatches _) (pairwise_sortMatches _)
      intro m hm
      rw [mem_sortMatches_iff, mem_sortMatches_iff]
      exact (hmatchHere m hm).symm
  exact hrun []

/-- The files found so far are the paths seen so far that have a file, each once. -/
theorem addMatch_eraseDups (seen : List Path) (m : String) :
    addMatch isFile base (seen.filter isFile).eraseDups m =
      ((seen ++ [base.join (.ofString m)]).filter isFile).eraseDups := by
  cases hfile : isFile (base.join (.ofString m)) with
  | false =>
    rw [addMatch_of_not hfile, List.filter_append, List.filter_cons_of_neg (by simp [hfile]),
      List.filter_nil, List.append_nil]
  | true =>
    rw [List.filter_append, List.filter_cons_of_pos hfile, List.filter_nil, eraseDups_concat,
      addMatch]
    simp [hfile]

theorem foldl_addMatch_eq (seen : List Path) (ms : List String) :
    ms.foldl (addMatch isFile base) (seen.filter isFile).eraseDups =
      ((seen ++ ms.map fun m => base.join (.ofString m)).filter isFile).eraseDups := by
  induction ms generalizing seen with
  | nil => rw [List.foldl_nil, List.map_nil, List.append_nil]
  | cons m ms ih => rw [List.foldl_cons, addMatch_eraseDups, ih, List.map_cons, ← List.append_cons]

/-- **The files of some patterns** are the files among all paths, without the repetitions. -/
theorem expandWith_eq (glob : String → List String) (isFile : Path → Bool) (base : Path)
    (patterns : List String) : expandWith glob isFile base patterns =
      ((patterns.flatMap fun pattern =>
        (sortMatches (glob pattern)).map fun m =>
          base.join (.ofString m)).filter isFile).eraseDups := by
  have hloop : (patterns.flatMap fun pattern => sortMatches (glob pattern)).foldl
      (addMatch isFile base) [] = _ :=
    foldl_addMatch_eq [] _
  rw [List.foldl_flatMap, List.nil_append, List.map_flatMap] at hloop
  exact hloop

/-- The files of a run are matches of its patterns. -/
theorem mem_expandWith {glob : String → List String} {patterns : List String} {p : Path}
    (h : p ∈ expandWith glob isFile base patterns) :
    isFile p = true ∧ ∃ pattern ∈ patterns, ∃ m ∈ glob pattern, p = base.join (.ofString m) := by
  rw [expandWith_eq, List.mem_eraseDups, List.mem_filter, List.mem_flatMap] at h
  obtain ⟨⟨pattern, hpattern, hp⟩, hfile⟩ := h
  obtain ⟨m, hm, rfl⟩ := List.mem_map.mp hp
  exact ⟨hfile, pattern, hpattern, m, mem_sortMatches_iff.mp hm, rfl⟩

/-! ### Paths that are too long -/

/-- A match of the pattern cannot be looked at, because its path is too long. -/
def overlong (ws : Workspace) (base : Path) (pattern : String) : Bool :=
  (ws.glob base pattern).any fun m => ws.checkFile (base.join (.ofString m)) = .error .tooLong

/-- Too long a path is the only reason why a file cannot be looked for. -/
theorem checkFile_eq_error {ws : Workspace} {p : Path} {fault : FileFault}
    (h : ws.checkFile p = .error fault) :
    fault = .tooLong := by
  unfold Workspace.checkFile FileTree.isFile FileTree.isFileIn at h
  split at h
  · cases h
  · exact (Except.error.inj h).symm
  · cases h

/-- Where a pattern can be looked for at all, only a path that is too long is in its way. -/
theorem patternFault?_eq {ws : Workspace} {pattern : String}
    (h : Glob.fault? base.text pattern = none) :
    patternFault? ws base pattern = if overlong ws base pattern then some .tooLong else none := by
  cases hfault : patternFault? ws base pattern with
  | none =>
    rw [patternFault?, h, Option.none_or, List.findSome?_eq_none_iff] at hfault
    rw [if_neg]
    intro hlong
    obtain ⟨m, hm, hlong⟩ := List.any_eq_true.mp hlong
    have hnone := hfault m (mem_sortMatches_iff.mpr hm)
    rw [of_decide_eq_true hlong] at hnone
    cases hnone
  | some fault =>
    rw [patternFault?, h, Option.none_or] at hfault
    obtain ⟨m, hm, hfault⟩ := List.exists_of_findSome?_eq_some hfault
    split at hfault
    · next hcheck =>
      cases hfault
      obtain rfl := checkFile_eq_error hcheck
      have hlong : overlong ws base pattern = true :=
        List.any_eq_true.mpr ⟨m, mem_sortMatches_iff.mp hm, decide_eq_true hcheck⟩
      rw [if_pos hlong]
    · cases hfault

/-- Where all patterns can be looked for, their files are told unless a path is too long. -/
theorem expand_eq {ws : Workspace} {patterns : List String}
    (h : ∀ p ∈ patterns, Glob.fault? base.text p = none) :
    expand ws base patterns = if patterns.any (overlong ws base) then .error .tooLong
      else .ok (expandWith (ws.glob base) ws.isFile base patterns) := by
  have hfault : patterns.findSome? (patternFault? ws base) =
      if patterns.any (overlong ws base) then some .tooLong else none := by
    induction patterns with
    | nil => rfl
    | cons p ps ih =>
      obtain ⟨hp, hps⟩ := List.forall_mem_cons.mp h
      rw [List.findSome?_cons, patternFault?_eq hp, ih hps, List.any_cons]
      cases overlong ws base p <;> rfl
  rw [expand, hfault]
  cases patterns.any (overlong ws base) <;> rfl

theorem expand_eq_ok {ws : Workspace} {patterns : List String} {paths : List Path}
    (h : expand ws base patterns = .ok paths) :
    (∀ p ∈ patterns, Glob.fault? base.text p = none) ∧
      paths = expandWith (ws.glob base) ws.isFile base patterns := by
  unfold expand at h
  split at h
  · cases h
  · next hnone =>
    cases h
    refine ⟨fun p hp => ?_, rfl⟩
    exact (Option.or_eq_none_iff.mp (List.findSome?_eq_none_iff.mp hnone p hp)).1

/-! ### What the files hold -/

theorem readSource_of_read {r : Reading} {ws ws' : Workspace} {p : Path}
    (h : ws'.read p = ws.read p) :
    readSource r ws' p = readSource r ws p := by
  rw [readSource, readSource, h]

theorem readSource_eq_nil {r : Reading} {ws : Workspace} {p : Path} {bytes : List UInt8}
    {text : Text} (hread : ws.read p = .ok bytes) (htext : readText bytes = .ok text)
    (hempty : Fragment.ofSource r.registry r.options p.text text = .ok []) :
    readSource r ws p = .ok (some []) := by
  refine bind_eq_ok_iff.mpr ⟨bytes, mapError_eq_ok_iff.mpr hread, ?_⟩
  rw [htext]
  exact bind_eq_ok_iff.mpr ⟨[], mapError_eq_ok_iff.mpr hempty, rfl⟩

/-- Files that document nothing can be read among the others without a difference. -/
theorem mapM_readSource_filter {r : Reading} {ws ws' : Workspace} {keep : Path → Bool}
    {paths : List Path} {perFile : List (Option (List Fragment))}
    (hkept : ∀ p ∈ paths, keep p = true → readSource r ws' p = readSource r ws p)
    (hmore : ∀ p ∈ paths, keep p = false → readSource r ws' p = .ok (some []))
    (h : (paths.filter keep).mapM (readSource r ws) = .ok perFile) :
    ∃ perFile', paths.mapM (readSource r ws') = .ok perFile' ∧
      (perFile'.filterMap id).flatten = (perFile.filterMap id).flatten := by
  induction paths generalizing perFile with
  | nil =>
    cases h
    exact ⟨[], rfl, rfl⟩
  | cons p ps ih =>
    obtain ⟨hkeptHere, hkeptLater⟩ := List.forall_mem_cons.mp hkept
    obtain ⟨hmoreHere, hmoreLater⟩ := List.forall_mem_cons.mp hmore
    cases hp : keep p with
    | false =>
      rw [List.filter_cons_of_neg (by simp [hp])] at h
      obtain ⟨perFile', hrest, hflat⟩ := ih hkeptLater hmoreLater h
      refine ⟨some [] :: perFile', ?_, hflat⟩
      rw [List.mapM_cons, hmoreHere hp, hrest]
      rfl
    | true =>
      rw [List.filter_cons_of_pos hp, List.mapM_cons] at h
      obtain ⟨first, hfirst, h⟩ := bind_eq_ok_iff.mp h
      obtain ⟨rest, hrest, h⟩ := bind_eq_ok_iff.mp h
      cases h
      obtain ⟨perFile', hrest', hflat⟩ := ih hkeptLater hmoreLater hrest
      refine ⟨first :: perFile', ?_, ?_⟩
      · rw [List.mapM_cons, hkeptHere hp, hfirst, hrest']
        rfl
      · cases first with
        | none => exact hflat
        | some fs => exact congrArg (fs ++ ·) hflat

/-- Files that hold nothing make no difference to the fragments. -/
theorem load_filter {r : Reading} {ws ws' : Workspace} {keep : Path → Bool} {paths : List Path}
    {x : Extraction} (hkept : ∀ p ∈ paths, keep p = true → readSource r ws' p = readSource r ws p)
    (hmore : ∀ p ∈ paths, keep p = false → readSource r ws' p = .ok (some []))
    (h : load r ws (paths.filter keep) = .ok x) :
    ∃ x', load r ws' paths = .ok x' ∧ x'.fragments = x.fragments := by
  simp only [load] at h ⊢
  split at h
  · cases h
  · next hnumber =>
    obtain ⟨perFile, hperFile, h⟩ := bind_eq_ok_iff.mp h
    cases h
    obtain ⟨perFile', hperFile', hflat⟩ := mapM_readSource_filter hkept hmore hperFile
    rw [if_neg hnumber, hperFile']
    exact ⟨_, rfl, hflat⟩

end StyleGuide.Sources
