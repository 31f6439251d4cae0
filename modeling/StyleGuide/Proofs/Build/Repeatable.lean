import StyleGuide.Build
import StyleGuide.Proofs.Build.NewFile
import StyleGuide.Proofs.Build.Sources
import StyleGuide.Proofs.Json.Printed
import StyleGuide.Proofs.Output.Calls

/-!
# Builds can be repeated

A build that succeeds writes one file, which may be among the sources of the next build. It makes no
difference there: the text of a document is read as it was written and has no comment
(`readText_written`, `ofSource_written`). So the next build finds the same documentation
(`docs_withFile`) and has nothing to write.

One thing can be in its way. The directories that the first build made may lead the system on to a
name that is too long for it, where before it stopped short of the name.
-/

namespace StyleGuide

open Path FileTree

/-! ### The text that is written -/

variable {data : Json} {text : Text}

/-- A written document has no carriage returns, so it is read as it was written. -/
theorem readText_written (h : Writer.OutputRequest.text? { data } = .ok (some text)) :
    '\r' ∉ text ∧ readText (Utf8.encode text) = .ok text := by
  obtain ⟨document, hdocument, htext⟩ := Writer.text?_data_eq_ok h
  cases htext
  have hreturn := (Json.quiet_document hdocument).notMem_return
  exact ⟨hreturn, readText_encode hreturn⟩

/-- Nothing is documented in a written document. -/
theorem ofSource_written (h : Writer.OutputRequest.text? { data } = .ok (some text))
    (registry : Registry)
    (options : Options) (file : Json) : Fragment.ofSource registry options file text = .ok [] := by
  obtain ⟨document, hdocument, htext⟩ := Writer.text?_data_eq_ok h
  cases htext
  exact ofSource_document hdocument registry options file

namespace BuildJob

variable {job : BuildJob} {ws : Workspace} {w : Writer} {docs : Json} {place l : Location}

/-! ### The documentation -/

theorem docs_of_paths_error {fault : FileFault} (h : job.paths ws = .error fault) :
    job.docs ws = .error (.file fault) := by
  rw [BuildJob.docs, extraction, h]
  rfl

/-- With a new file that has no fragments, a job finds the same documentation, unless a path is too
long. -/
theorem docs_withFile (hroom : ws.HasRoom place) (hbase : IsWritten job.base)
    (hdir : ws.tree.find ws.cwd job.base.text = .ok (l, .dir))
    (hdown : ∀ p ∈ job.patterns, ".." ∉ pieces p)
    {bytes : List UInt8} (hread : readText bytes = .ok text)
    (hempty : ∀ registry options file, Fragment.ofSource registry options file text = .ok [])
    (h : job.docs ws = .ok docs) :
    job.docs (ws.withFile place bytes) =
      if job.patterns.any (Sources.overlong (ws.withFile place bytes) job.base)
      then .error (.file .tooLong) else .ok docs := by
  obtain ⟨x, hx, hcompile⟩ := bind_eq_ok_iff.mp h
  obtain ⟨paths, hpaths, hload⟩ := bind_eq_ok_iff.mp hx
  obtain ⟨hfault, rfl⟩ := Sources.expand_eq_ok (mapError_eq_ok_iff.mp hpaths)
  have hexpand : job.paths (ws.withFile place bytes) = _ := Sources.expand_eq hfault
  split
  · next hlong =>
    rw [if_pos hlong] at hexpand
    exact docs_of_paths_error hexpand
  · next hshort =>
    rw [if_neg hshort] at hexpand
    -- The files that were there before are found again, in their order.
    have hfilter := @Sources.filter_expandWith ws.isFile (ws.withFile place bytes).isFile job.base
      (ws.glob job.base) ((ws.withFile place bytes).glob job.base) job.patterns
      (fun _ _ _ _ hfile => hroom.isFile_withFile bytes hfile)
      (fun p hp _ hfile => hroom.mem_glob_withFile bytes hbase hdir (hdown p hp) hfile)
    -- Any other one is the new file, perhaps by several names, and documents nothing.
    have hnew : ∀ p ∈ Sources.expandWith ((ws.withFile place bytes).glob job.base)
        (ws.withFile place bytes).isFile job.base job.patterns, ws.isFile p = false →
        Sources.readSource job.reading (ws.withFile place bytes) p = .ok (some []) := by
      intro p hp hold
      obtain ⟨hfile, pattern, hpattern, m, hm, rfl⟩ := Sources.mem_expandWith hp
      have hmdown := Glob.down_of_mem_matchesOf (hdown pattern hpattern)
        (hroom.sound_withFile bytes) hm
      exact Sources.readSource_eq_nil
        (hroom.read_of_isFile_withFile hbase hdir hmdown hold hfile) hread
        (hempty _ _ _)
    rw [← hfilter] at hload
    obtain ⟨x', hload', hfragments⟩ := Sources.load_filter
      (fun p _ hold => Sources.readSource_of_read (hroom.read_withFile bytes hold)) hnew hload
    refine bind_eq_ok_iff.mpr ⟨x',
      bind_eq_ok_iff.mpr ⟨_, mapError_eq_ok_iff.mpr hexpand, hload'⟩, ?_⟩
    rwa [hfragments]

/-! ### The writer -/

/-- A writer that can be made can be made again. -/
theorem create_withFile (hroom : ws.HasRoom place) (bytes : List UInt8) {outdir : Path}
    (h : Writer.create ws.tree ws.cwd outdir false = .ok w) :
    Writer.create (ws.withFile place bytes).tree (ws.withFile place bytes).cwd outdir false =
      .ok w := by
  obtain ⟨hnull, hdry | hthere, hw⟩ := Writer.create_eq_ok_iff.mp h
  · cases hdry
  · exact Writer.create_eq_ok_iff.mpr ⟨hnull,
      .inr ((hroom.extends_withFile bytes).isDirAt hthere), hw⟩

/-- The new file has the text that it was given. -/
theorem verdict_withFile (hroom : ws.HasRoom place) (hfault : textFault? place.text = none)
    (hshort : place.any isTooLong = false) (hreturn : '\r' ∉ text) :
    Writer.verdict (ws.withFile place (Utf8.encode text)).tree place (some text) = .ok none := by
  have hfile : (ws.withFile place (Utf8.encode text)).tree.file? place = some (Utf8.encode text) :=
    (file?_write _ _ _ _ hroom.below_root).trans (if_pos rfl)
  have hconnected := (hroom.sound_withFile (Utf8.encode text)).connected
  exact Writer.verdict_of_readAt (hconnected.readAt_eq_ok hroom.named.1 hfile hfault hshort) hreturn

/-! ### Runs -/

theorem run_of_docs_error {fault : Fault} (h : job.docs ws = .error fault) :
    job.run ws w = ⟨.error fault, ws.tree, job.docsEvents ws⟩ := by
  rw [run, h]

/-- A run that succeeds writes its documentation. -/
theorem run_eq_ok (h : (job.run ws w).result = .ok docs) :
    job.docs ws = .ok docs ∧
      ∃ w', w.make ws.tree job.filename { data := docs } = (.ok (), w', (job.run ws w).tree) := by
  unfold run at h ⊢
  cases hdocs : job.docs ws with
  | error fault =>
    rw [hdocs] at h
    cases h
  | ok found =>
    rw [hdocs] at h
    rcases hmake : w.make ws.tree job.filename { data := found } with ⟨done, w', tree'⟩
    cases done with
    | error fault =>
      simp only [hmake] at h
      cases h
    | ok =>
      simp only [hmake] at h ⊢
      cases hdone : w'.finalize.1 with
      | error fault =>
        rw [hdone] at h
        cases h
      | ok summary =>
        rw [hdone] at h
        cases h
        exact ⟨rfl, w', hmake⟩

theorem finalizeEvents_of_same (outdir place : Location) :
    Writer.finalizeEvents { outdir, dryRun := false, made := [place], same := 1 } =
      [.summary "Outputs: 1 same, 0 changed, 0 new" true] := by
  have hsummary : Writer.summary { outdir, dryRun := false, made := [place], same := 1 } =
      "Outputs: 1 same, 0 changed, 0 new" := by
    show s!"Outputs: {1} same, {0} changed, {(1 : Int) - (1 : Nat) - (0 : Nat)} new" = _
    decide
  have hupdates : Writer.sortedUpdates { outdir, dryRun := false, made := [place], same := 1 } =
      [] :=
    List.mergeSort_nil
  rw [Writer.finalizeEvents, if_neg Bool.false_ne_true, hsummary, hupdates]
  rfl

/-- A run whose file has its text already writes nothing and counts the file as the same. -/
theorem run_of_same {outdir : Location} (hdocs : job.docs ws = .ok docs)
    (hprepare : Writer.prepare { outdir, dryRun := false } job.filename { data := docs } =
      .ok (place, some text))
    (hverdict : Writer.verdict ws.tree place (some text) = .ok none) :
    job.run ws { outdir, dryRun := false } =
      ⟨.ok docs, ws.tree, job.docsEvents ws ++
          [.summary "Outputs: 1 same, 0 changed, 0 new" true]⟩ := by
  have hmake : Writer.make { outdir, dryRun := false } ws.tree job.filename { data := docs } =
      (.ok (), { outdir, dryRun := false, made := [place], same := 1 }, ws.tree) := by
    rw [Writer.make, hprepare]
    dsimp only
    rw [hverdict]
    rfl
  have hevents : Writer.makeEvents { outdir, dryRun := false } ws.tree job.filename
      { data := docs } = [] := by
    rw [Writer.makeEvents, hprepare]
    dsimp only
    rw [hverdict]
  rw [run, hdocs]
  dsimp only
  rw [hmake, hevents, List.append_nil]
  dsimp only
  rw [finalizeEvents_of_same]
  rfl

/-- A job that can be run: a base directory that exists, patterns without parent parts, a fresh
writer, and no file yet in the place of the output. -/
structure Ready (job : BuildJob) (ws : Workspace) (w : Writer) (outdir : String) : Prop where
  sound : ws.tree.Sound
  named : IsNamed ws.cwd
  written : ∃ base, job.base = .ofString base
  there : ws.tree.isDir ws.cwd job.base.text = true
  down : ∀ p ∈ job.patterns, ".." ∉ pieces p
  created : Writer.create ws.tree ws.cwd (.ofString outdir) false = .ok w
  absent : ∀ name place, job.filename = .str name → Writer.resolve w.outdir name = .ok place →
    ws.tree.file? place = none

/-- What the first run of a job does: it writes the text of its documentation where nothing was. -/
theorem Ready.exists_tree_run {outdir : String} (h : job.Ready ws w outdir)
    (hrun : (job.run ws w).result = .ok docs) :
    ∃ place text, ws.HasRoom place ∧
      w.prepare job.filename { data := docs } = .ok (place, some text) ∧
      textFault? place.text = none ∧ place.any isTooLong = false ∧
      (job.run ws w).tree = ws.tree.write place (Utf8.encode text) := by
  obtain ⟨-, -, hw⟩ := Writer.create_eq_ok_iff.mp h.created
  obtain ⟨-, w', hmake⟩ := run_eq_ok hrun
  obtain ⟨place, text, action, hprepare, hverdict, -, htree, hshort⟩ :=
    Writer.make_eq_ok (by rw [hw]) hmake
  obtain ⟨-, name, hname, hresolve⟩ := Writer.prepare_eq_ok hprepare
  have hnamed : IsNamed place := by
    obtain ⟨-, hplace, -, -⟩ := Writer.resolve_eq_ok hresolve
    rw [hplace, hw]
    exact (h.named.normalize (isWritten_ofString outdir)).normalize (isWritten_ofString name)
  have hnone := h.absent name place hname hresolve
  obtain ⟨hfree, ⟨bytes, _, hfile, _⟩ | ⟨bytes, _, hfile, _⟩ | ⟨habsent, rfl⟩⟩ :=
    Writer.verdict_cases h.sound.connected hnamed.1 hverdict
  · rw [hnone] at hfile
    cases hfile
  · rw [hnone] at hfile
    cases hfile
  · exact ⟨place, text, ⟨h.sound, hnamed, Writer.ne_nil_of_resolve hresolve, habsent, hfree⟩,
      hprepare, Writer.textFault?_of_verdict hverdict, hshort rfl, htree⟩

/-- **A build can be repeated.** The text of a document is read as it was written and has no
fragments. So if a build succeeds, the next one finds the same documentation, has the file already
and leaves all files as they are; or there is a path now that is too long to be looked at, which is
its fault then. -/
theorem run_again_of_run :
    (∀ (data : Json) (text : Text), Writer.OutputRequest.text? { data } = .ok (some text) →
      readText (Utf8.encode text) = .ok text ∧
        ∀ registry options file, Fragment.ofSource registry options file text = .ok []) ∧
    ∀ (job : BuildJob) (ws : Workspace) (w : Writer) (outdir : String) (docs : Json),
      job.Ready ws w outdir → (job.run ws w).result = .ok docs →
      let after : Workspace := { ws with tree := (job.run ws w).tree }
      Writer.create after.tree after.cwd (.ofString outdir) false = .ok w ∧
      (job.run after w).tree = after.tree ∧
      if job.patterns.any (Sources.overlong after job.base) then
        (job.run after w).result = .error (.file .tooLong)
      else (job.run after w).result = .ok docs ∧ (job.run after w).events =
        job.docsEvents after ++ [.summary "Outputs: 1 same, 0 changed, 0 new" true] := by
  refine ⟨fun data text h => ⟨(readText_written h).2, ofSource_written h⟩, ?_⟩
  intro job ws w outdir docs h hrun
  obtain ⟨place, text, hroom, hprepare, hfault, hshort, htree⟩ := h.exists_tree_run hrun
  obtain ⟨htext, -⟩ := Writer.prepare_eq_ok hprepare
  obtain ⟨hreturn, hread⟩ := readText_written htext
  have hafter : ({ ws with tree := (job.run ws w).tree } : Workspace) =
      ws.withFile place (Utf8.encode text) := by
    rw [htree, Workspace.withFile]
  rw [hafter]
  refine ⟨create_withFile hroom _ h.created, ?_⟩
  -- the documentation is that of the first run, and the file has its text already
  obtain ⟨base, hbase⟩ := h.written
  obtain ⟨l, hdir⟩ := isDir_iff.mp h.there
  have hdocs := docs_withFile hroom (hbase ▸ isWritten_ofString base) hdir h.down hread
    (ofSource_written htext)
    (run_eq_ok hrun).1
  split
  · next hlong =>
    rw [if_pos hlong] at hdocs
    rw [run_of_docs_error hdocs]
    exact ⟨rfl, rfl⟩
  · next hnone =>
    rw [if_neg hnone] at hdocs
    obtain ⟨-, -, hw⟩ := Writer.create_eq_ok_iff.mp h.created
    rw [hw] at hprepare ⊢
    rw [run_of_same hdocs hprepare (verdict_withFile hroom hfault hshort hreturn)]
    exact ⟨rfl, rfl, rfl⟩

def sampleWorkspace : Workspace where
  tree := ⟨[(["work"], .dir), (["work", "out"], .dir),
    (["work", "a.js"], .file (Utf8.encode "/** @component button */".toList))]⟩
  cwd := ["work"]
  home := ["home"]

/-- The script is a source, and so is all that is in the output directory. -/
def sampleJob : BuildJob where
  patterns := ["a.js", "out/*"]
  base := .ofString "."

def sampleWriter : Writer where
  outdir := ["work", "out"]
  dryRun := false

/-- A job in the sample directory is ready if its output is not there yet. -/
theorem ready_of_sample {job : BuildJob} {name : String} {place : Location}
    (hbase : job.base = .ofString ".")
    (hdown : ∀ p ∈ job.patterns, ".." ∉ pieces p) (hname : job.filename = .str name)
    (hplace : Writer.resolve sampleWriter.outdir name = .ok place)
    (habsent : sampleWorkspace.tree.file? place = none) :
    job.Ready sampleWorkspace sampleWriter "out" where
  sound := by decide +kernel
  named := by decide +kernel
  written := ⟨".", hbase⟩
  there := by
    rw [hbase]
    decide +kernel
  down := hdown
  created := rfl
  absent := by
    intro other place' hother hplace'
    rw [hname] at hother
    cases hother
    rw [hplace] at hplace'
    cases hplace'
    exact habsent

/-- A document may spell a comment, and the second build reads the output of the first one: there is
nothing in either. -/
theorem run_again_of_run_output_read :
    (∃ text, Writer.OutputRequest.text? { data := .str "/** @component button */" } =
      .ok (some text) ∧ Fragment.ofSource .standard .none (.str "docs.json") text = .ok []) ∧
    ∃ docs, sampleJob.Ready sampleWorkspace sampleWriter "out" ∧
      (sampleJob.run sampleWorkspace sampleWriter).result = .ok docs ∧
      let after : Workspace :=
        { sampleWorkspace with tree := (sampleJob.run sampleWorkspace sampleWriter).tree }
      sampleJob.paths after = .ok [.ofString "a.js", .ofString "out/docs.json"] ∧
        (sampleJob.run after sampleWriter).result = .ok docs ∧
        (sampleJob.run after sampleWriter).tree = after.tree := by
  obtain ⟨hwritten, hagain⟩ := run_again_of_run
  refine ⟨⟨_, rfl, (hwritten (.str "/** @component button */") _ rfl).2 _ _ _⟩, ?_⟩
  have hready : sampleJob.Ready sampleWorkspace sampleWriter "out" :=
    ready_of_sample rfl (by decide +kernel) rfl rfl (by decide +kernel)
  have hok : (sampleJob.run sampleWorkspace sampleWriter).result.isOk = true := by decide +kernel
  obtain ⟨docs, hdocs⟩ := exists_of_isOk hok
  obtain ⟨-, htree, hsame⟩ := hagain sampleJob sampleWorkspace sampleWriter "out" docs hready hdocs
  rw [if_neg (by decide +kernel)] at hsame
  exact ⟨docs, hready, hdocs, by decide +kernel, hsame.1, htree⟩

/-! ### Where a second build fails -/

section Below

variable {base : Path} {names : List String} {fault : WalkFault}

/-- A pattern that ends below a directory that is not there has one match, the directory itself.
-/
theorem glob_below (hdir : ws.tree.find ws.cwd base.text = .ok (l, .dir)) (hnamed : IsNamed names)
    (hne : names ≠ []) (hplain : ∀ name ∈ names, Glob.isPattern name = false)
    (hfind : ws.tree.findFrom l names = .error fault) :
    ws.glob base (String.ofList (slashed (names ++ ["**"]))) =
      [Glob.joinText (String.ofList (slashed names)) ""] := by
  refine Glob.matchesOf_below hnamed hne hplain ?_
  intro place hplace
  have hrelative : (ofString (String.ofList (slashed names))).isAbsolute = false :=
    Bool.eq_false_iff.mpr
      (mt isAbsolute_ofString_iff.mp (Glob.isDownward_slashed hnamed hne).relative)
  rw [find_joinNonEmpty hdir, start, hrelative, pieces_slashed hne hnamed.2] at hplace
  cases htext : textFault? (Glob.joinNonEmpty base.text (String.ofList (slashed names))) with
  | none =>
    rw [htext] at hplace
    exact absurd (hplace.symm.trans hfind) (by simp)
  | some other =>
    rw [htext] at hplace
    cases hplace

/-- Looking at this match fails only if the way to it is too long. -/
theorem checkFile_below (hbase : IsWritten base)
    (hdir : ws.tree.find ws.cwd base.text = .ok (l, .dir))
    (hnamed : IsNamed names) (hne : names ≠ [])
    (htext : textFault? (base.join ⟨.here, names⟩).text = none)
    (hfind : ws.tree.findFrom l names = .error fault) :
    ws.checkFile (base.join (.ofString (Glob.joinText (String.ofList (slashed names)) ""))) =
      if fault = .tooLong then .error .tooLong else .ok false := by
  rw [Workspace.checkFile, FileTree.isFile, find_join hbase hdir,
    Glob.ofString_joinText_slashed hnamed hne, htext]
  refine (congrArg isFileIn hfind).trans ?_
  cases fault <;> rfl

/-- Names that lead nowhere give a pattern no files, unless one of them is too long to be looked
at. -/
theorem expand_below (hbase : IsWritten base) (hdir : ws.tree.find ws.cwd base.text = .ok (l, .dir))
    (hnamed : IsNamed names) (hne : names ≠ [])
    (hplain : ∀ name ∈ names, Glob.isPattern name = false)
    (htext : textFault? (base.join ⟨.here, names⟩).text = none)
    (hnull : Glob.fault? base.text (String.ofList (slashed (names ++ ["**"]))) = none)
    (hfind : ws.tree.findFrom l names = .error fault) :
    Sources.expand ws base [String.ofList (slashed (names ++ ["**"]))] =
      if fault = .tooLong then .error .tooLong else .ok [] := by
  have hglob := glob_below hdir hnamed hne hplain hfind
  have hcheck := checkFile_below hbase hdir hnamed hne htext hfind
  rw [Sources.expand_eq (by simpa using hnull), List.any_cons, Sources.overlong, hglob,
    List.any_cons, hcheck]
  by_cases hlong : fault = .tooLong
  · rw [if_pos hlong, if_pos hlong]
    rfl
  · rw [if_neg hlong] at hcheck
    have hfile : ws.isFile
        (base.join (.ofString (Glob.joinText (String.ofList (slashed names)) ""))) = false := by
      rw [Workspace.isFile, hcheck]
      rfl
    rw [if_neg hlong, if_neg hlong, Sources.expandWith, List.foldl_cons, hglob, Sources.sortMatches,
      List.mergeSort_singleton, List.foldl_cons, Sources.addMatch_of_not hfile]
    rfl

end Below

/-- A name that the system does not take. -/
def longName : String := String.ofList (List.replicate 256 'x')

/-- The name behind a directory that is not there at first. -/
def longNames : List String := ["out", "sub", longName]

/-- A job that makes this directory for its output. -/
def longNameJob : BuildJob where
  patterns := [String.ofList (slashed (longNames ++ ["**"]))]
  base := .ofString "."
  filename := .str "sub/docs.json"

theorem toList_longName : longName.toList = List.replicate 256 'x' := String.toList_ofList

theorem slashed_longNames : slashed longNames = "out/sub/".toList ++ List.replicate 256 'x' := by
  rw [slashed, longNames, List.map_cons, List.map_cons, List.map_cons, toList_longName]
  decide +kernel

theorem isNamed_longNames : IsNamed longNames := by
  have hslash : '/' ∉ longName.toList := by
    rw [toList_longName]
    decide +kernel
  have hplain : longName ≠ "" ∧ longName ≠ "." ∧ longName ≠ ".." := by
    decide +kernel
  constructor
  · unfold FileTree.IsPlain longNames
    simp only [List.forall_mem_cons]
    exact ⟨by decide, by decide, hplain, by decide⟩
  · unfold longNames
    simp only [List.forall_mem_cons]
    exact ⟨by decide, by decide, hslash, by decide⟩

theorem isPattern_longNames : ∀ name ∈ longNames, Glob.isPattern name = false := by
  have hlong : Glob.isPattern longName = false := by
    rw [Glob.isPattern, toList_longName]
    decide +kernel
  rw [longNames]
  simp only [List.forall_mem_cons]
  exact ⟨by decide, by decide, hlong, by decide⟩

theorem textFault?_longNames : textFault? ((ofString ".").join ⟨.here, longNames⟩).text = none := by
  show textFault? (String.ofList (slashed longNames)) = none
  rw [textFault?, String.toList_ofList, slashed_longNames]
  decide +kernel

theorem fault?_longNames : Glob.fault? "." (String.ofList (slashed (longNames ++ ["**"]))) =
    none := by
  have hne : longNames ≠ [] := by simp [longNames]
  have hlead : (Glob.joinNonEmpty "." (String.ofList (slashed longNames))).toList =
      ['.', '/'] ++ slashed longNames := by
    rw [Glob.joinNonEmpty_eq (by decide) (Glob.slashed_ne_empty isNamed_longNames hne),
      Glob.joinText_eq _ (Glob.isDownward_slashed isNamed_longNames hne).relative,
      String.toList_append, String.toList_ofList]
    rfl
  have hnull : (['.', '/'] ++ slashed longNames).contains '\x00' = false := by
    rw [slashed_longNames]
    decide +kernel
  rw [Glob.fault?, Glob.plainParts_below isNamed_longNames isPattern_longNames,
    Glob.leadOf_of_isNamed isNamed_longNames hne, hlead, hnull, Bool.and_false,
    if_neg Bool.false_ne_true]

/-- The job fails as soon as the directories before the long name are there. -/
theorem paths_longNameJob {ws : Workspace} {fault : WalkFault}
    (hdir : ws.tree.find ws.cwd "." = .ok (l, .dir))
    (hfind : ws.tree.findFrom l longNames = .error fault) :
    longNameJob.paths ws = if fault = .tooLong then .error .tooLong else .ok [] :=
  expand_below (isWritten_ofString ".") hdir isNamed_longNames (by simp [longNames])
    isPattern_longNames textFault?_longNames fault?_longNames hfind

/-- The second build can fail: before the first one, the system did not come as far as the long
name. -/
theorem run_again_error_of_longName : ∃ docs, longNameJob.Ready sampleWorkspace sampleWriter "out" ∧
    (longNameJob.run sampleWorkspace sampleWriter).result = .ok docs ∧
    (longNameJob.run { sampleWorkspace with
      tree := (longNameJob.run sampleWorkspace sampleWriter).tree }
      sampleWriter).result = .error (.file .tooLong) := by
  have hdown : ∀ p ∈ longNameJob.patterns, ".." ∉ pieces p := by
    intro p hp
    rw [List.mem_singleton.mp hp, Glob.pieces_below isNamed_longNames, List.mem_append, not_or]
    exact ⟨fun hmem => (isNamed_longNames.1 ".." hmem).2.2 rfl, by decide⟩
  have hpaths : longNameJob.paths sampleWorkspace = .ok [] :=
    @paths_longNameJob ["work"] sampleWorkspace .missing (by decide +kernel) (by decide +kernel)
  have hdocs : longNameJob.docs sampleWorkspace = .ok (.obj []) := by
    rw [BuildJob.docs, extraction, hpaths]
    rfl
  have hfirst : (longNameJob.run sampleWorkspace sampleWriter).result = .ok (.obj []) := by
    rw [run, hdocs]
    rfl
  have hsecond : longNameJob.paths
      { sampleWorkspace with tree := (longNameJob.run sampleWorkspace sampleWriter).tree } =
          .error .tooLong := by
    rw [run, hdocs]
    exact @paths_longNameJob ["work"] _ .tooLong (by decide +kernel) (by decide +kernel)
  exact ⟨.obj [], ready_of_sample rfl hdown rfl rfl (by decide +kernel), hfirst,
    congrArg Outcome.result (run_of_docs_error (docs_of_paths_error hsecond))⟩

end BuildJob

end StyleGuide
