import StyleGuide.Proofs.Files.Growing
import StyleGuide.Proofs.Output.Sessions

/-!
# A dry run tells what a run would do

A dry run reads the files as they were at its start, while a run reads files that it keeps changing.
A call reads only what is at its own place and above it, and there the calls for other places have
made nothing but directories. So, as long as neither of two places is above the other, the two come
to the same verdict call by call and keep the same account (`make_live`), until the system fails to
write a file (`make_live_eq_error`). They give the same answers exactly if it does not
(`dryRun_predicts`).
-/

namespace StyleGuide.Writer

open FileTree

variable {w : Writer} {t u tree : FileTree} {name : Json} {r : OutputRequest} {place : Location}
  {text : Option Text}

/-! ### Dry runs -/

/-- What a call keeps: the writer has the same directory and is as dry as before, and then it
touches nothing. -/
theorem kept_make {done : Except WriterFault Unit} {w' : Writer} {tree' : FileTree}
    (h : w.make tree name r = (done, w', tree')) :
    w'.outdir = w.outdir ∧ w'.dryRun = w.dryRun ∧ (w.dryRun = true → tree' = tree) := by
  obtain ⟨_, _, -, rfl, rfl⟩ | ⟨place, _, -, ⟨_, -, -, rfl, rfl⟩ | ⟨action, -, rfl, hput⟩⟩ :=
    make_cases h
  · exact ⟨rfl, rfl, fun _ => rfl⟩
  · rw [note_eq]
    exact ⟨rfl, rfl, fun _ => rfl⟩
  · rw [(kept_account action).2.1, (kept_account action).2.2.1, note_eq]
    refine ⟨rfl, rfl, ?_⟩
    intro hdry
    rw [hdry, Bool.not_true, Bool.and_false, if_neg Bool.false_ne_true] at hput
    exact (Prod.mk.inj hput).2

/-- A dry run leaves the files alone. -/
theorem session_dryRun (hdry : w.dryRun = true) (tree : FileTree) (steps : List Step) :
    (w.session tree steps).tree = tree := by
  induction steps generalizing w with
  | nil => rfl
  | cons s ss ih =>
    obtain ⟨hstep, htree⟩ : (w.step tree s).2.1.dryRun = true ∧ (w.step tree s).2.2 = tree := by
      cases s with
      | make c =>
        have hmake : w.make tree c.name c.request = ((w.make tree c.name c.request).1,
          (w.step tree (.make c)).2.1, (w.step tree (.make c)).2.2) := rfl
        obtain ⟨-, hdryRun, htree⟩ := kept_make hmake
        exact ⟨hdryRun.trans hdry, htree hdry⟩
      | finalize =>
        refine ⟨?_, rfl⟩
        show w.finalize.2.dryRun = true
        unfold finalize
        split <;> exact hdry
    rw [session_cons]
    dsimp only
    rw [htree]
    exact ih hstep

/-! ### The same calls, dry and not -/

def targets (w : Writer) (calls : List Call) : List Location :=
  calls.filterMap fun c => (w.prepare c.name c.request).toOption.map (·.1)

/-- The system can write the file that is asked for, if there is something to write. -/
def CanWrite (w : Writer) (tree : FileTree) (c : Call) : Prop :=
  ∀ place text action, w.prepare c.name c.request = .ok (place, text) →
    verdict tree place text = .ok (some action) → (put tree place text).1 = .ok ()

/-- The writer as it would be in a run that is not dry. -/
def live (w : Writer) : Writer := { w with dryRun := false }

/-- What is asked for, and whether it can be done, hangs on the directory only. -/
theorem prepare_congr {w' : Writer} (h : w'.outdir = w.outdir) : w'.prepare = w.prepare := by
  funext name r
  rw [prepare, prepare, h]

theorem targets_congr {w' : Writer} (h : w'.outdir = w.outdir) (calls : List Call) :
    w'.targets calls = w.targets calls := by
  rw [targets, targets, prepare_congr h]

theorem canWrite_congr {w' : Writer} {c : Call} (h : w'.outdir = w.outdir) :
    w'.CanWrite tree c ↔ w.CanWrite tree c := by
  rw [CanWrite, CanWrite, prepare_congr h]

theorem targets_sublist (w : Writer) (c : Call) (cs : List Call) :
    (w.targets cs).Sublist (w.targets (c :: cs)) :=
  (List.sublist_cons_self c cs).filterMap _

theorem targets_cons {c : Call} (h : w.prepare c.name c.request = .ok (place, text))
    (cs : List Call) :
    w.targets (c :: cs) = place :: w.targets cs := by
  simp [targets, h, Except.toOption]

/-- Whether a text can be put does not depend on the files. -/
theorem put_of_canWrite (h : (put tree place text).1 = .ok ()) : ∃ s, text = some s ∧
    place.any isTooLong = false ∧
      ∀ u, put u place text = (.ok (), u.write place (Utf8.encode s)) := by
  have hput : put tree place text = (.ok (), (put tree place text).2) := Prod.ext h rfl
  obtain ⟨s, rfl, hshort, -⟩ := put_eq_ok hput
  refine ⟨s, rfl, hshort, ?_⟩
  intro u
  rw [put, if_neg (by simp [hshort])]

/-- In a dry run a call only keeps account. -/
theorem make_of_dryRun {action : Option Action} (hdry : w.dryRun = true)
    (hprepare : w.prepare name r = .ok (place, text))
    (hverdict : verdict t place text = .ok action) :
    w.make t name r = (.ok (), (w.note place).account place action, t) := by
  have hdryNote : (w.note place).dryRun = true := by rw [note_eq, hdry]
  rw [make, hprepare]
  dsimp only
  rw [hverdict, hdryNote]
  simp

/-- A call that is not refused, on files on which the verdict is the same: the answer is the same,
and so is the account. -/
theorem make_live (hdry : w.dryRun = true) (hprepare : w.prepare name r = .ok (place, text))
    (hverdict : verdict u place text = verdict t place text)
    (hput : ∀ action, verdict t place text = .ok (some action) → (put t place text).1 = .ok ()) :
    ∃ done w', w.make t name r = (done, w', t) ∧
      (w.live.make u name r = (done, w'.live, u) ∨
        ∃ bytes, w.live.make u name r = (done, w'.live, u.write place bytes)) := by
  have hlive : w.live.prepare name r = .ok (place, text) := hprepare
  have hnote : w.live.note place = (w.note place).live := by
    rw [note_eq, note_eq]
    rfl
  cases hcase : verdict t place text with
  | error fault =>
    refine ⟨.error (.file fault), w.note place, ?_, .inl ?_⟩
    · rw [make, hprepare]
      dsimp only
      rw [hcase]
    · rw [make, hlive]
      dsimp only
      rw [hverdict, hcase, hnote]
  | ok action =>
    refine ⟨.ok (), (w.note place).account place action, make_of_dryRun hdry hprepare hcase, ?_⟩
    have haccount : (w.note place).live.account place action =
        ((w.note place).account place action).live := by
      cases action <;> rfl
    rw [make, hlive]
    dsimp only
    rw [hverdict, hcase, hnote]
    dsimp only
    rw [haccount]
    cases action with
    | none => exact .inl rfl
    | some action =>
      obtain ⟨s, rfl, -, hwrite⟩ := put_of_canWrite (hput action hcase)
      right
      refine ⟨Utf8.encode s, ?_⟩
      rw [hwrite u]
      rfl

/-- What was made apart from a place does not change the verdict there. -/
theorem verdict_grown (hgrown : t.Grown u place) (ht : t.Connected) (hplain : IsPlain place)
    (hput : ∀ action, verdict t place text = .ok (some action) → (put t place text).1 = .ok ()) :
    verdict u place text = verdict t place text := by
  have hread : u.readAt place = t.readAt place := by
    apply hgrown.readAt_eq ht hplain
    intro hmissing
    obtain ⟨_, -, hshort, -⟩ := put_of_canWrite (hput .create (by rw [verdict, hmissing]))
    exact hshort
  rw [verdict, verdict, hread]

/-- A file that was to be written cannot have its text already, in a tree that has grown at its
place. -/
theorem verdict_ne_none (hgrown : t.Grown u place) (ht : t.Connected) (hplain : IsPlain place)
    {action : Action}
    (hverdict : verdict t place text = .ok (some action)) : verdict u place text ≠ .ok none := by
  intro hnone
  obtain ⟨bytes, hread⟩ : ∃ bytes, u.readAt place = .ok bytes := by
    cases hread : u.readAt place with
    | ok bytes => exact ⟨bytes, rfl⟩
    | error fault =>
      rw [verdict, hread] at hnone
      cases fault <;> cases hnone
  have hsame : u.readAt place = t.readAt place := by
    apply hgrown.readAt_eq ht hplain
    intro hmissing
    have hsame := hgrown.lookup?_self
    rw [(ht.freeAt_of_missing hplain hmissing).1,
      file?_eq_some_iff.mp (freeAt_of_readAt hplain hread).1] at hsame
    cases hsame
  rw [verdict, hsame, ← verdict, hverdict] at hnone
  cases hnone

/-- If the system cannot write a file that is to be written, then a run that is not dry fails. -/
theorem make_live_eq_error (hprepare : w.prepare name r = .ok (place, text))
    (hgrown : t.Grown u place) (ht : t.Connected) (hplain : IsPlain place) {action : Action}
    (hverdict : verdict t place text = .ok (some action)) (hput : (put t place text).1 ≠ .ok ()) :
    ∃ fault w' u', w.live.make u name r = (.error fault, w', u') := by
  cases hmake : w.live.make u name r with
  | mk done after =>
    cases done with
    | error fault => exact ⟨fault, after.1, after.2, rfl⟩
    | ok _ =>
      obtain ⟨place', s, action', hprepare', hverdict', -, -, hshort⟩ := make_eq_ok rfl hmake
      obtain ⟨rfl, rfl⟩ : place' = place ∧ some s = text := by
        have hsame : w.live.prepare name r = .ok (place, text) := hprepare
        rw [hsame] at hprepare'
        cases hprepare'
        exact ⟨rfl, rfl⟩
      cases action' with
      | none => exact absurd hverdict' (verdict_ne_none hgrown ht hplain hverdict)
      | some action' =>
        refine absurd ?_ hput
        rw [put, if_neg (by simp [hshort rfl])]

/-- One call, dry and not, that can be done: the two give the same answer, and keep the same
account. The places of later calls see at most new directories. -/
theorem step_live {c : Call} {cs : List Call} (hdry : w.dryRun = true) (hplain : IsPlain w.outdir)
    (ht : t.Connected) (hgrown : ∀ l ∈ w.targets (c :: cs), t.Grown u l)
    (hapart : (w.targets (c :: cs)).Pairwise FileTree.Apart) (hc : w.CanWrite t c) :
    ∃ done w' v, w.make t c.name c.request = (done, w', t) ∧
      w.live.make u c.name c.request = (done, w'.live, v) ∧
      ∀ l ∈ w.targets cs, t.Grown v l := by
  have hlater : ∀ l ∈ w.targets cs, t.Grown u l :=
    fun l hl => hgrown l ((w.targets_sublist c cs).subset hl)
  cases hprepare : w.prepare c.name c.request with
  | error fault =>
    have hrefused : w.live.prepare c.name c.request = .error fault := hprepare
    exact ⟨.error fault, w, u, by rw [make, hprepare], by rw [make, hrefused], hlater⟩
  | ok found =>
    obtain ⟨place, text⟩ := found
    obtain ⟨hne, hplace⟩ := isPlain_of_prepare hplain hprepare
    rw [targets_cons hprepare] at hgrown hapart
    have hput (action : Action) := hc place text action hprepare
    have hverdict := verdict_grown (hgrown place List.mem_cons_self) ht hplace hput
    obtain ⟨done, w', hmake, hlive | ⟨bytes, hlive⟩⟩ := make_live hdry hprepare hverdict hput
    · exact ⟨done, w', u, hmake, hlive, hlater⟩
    · refine ⟨done, w', u.write place bytes, hmake, hlive, ?_⟩
      intro l hl
      exact (hlater l hl).write hne ((List.pairwise_cons.mp hapart).1 l hl).symm bytes

/-- One call that cannot be done: the dry run announces a file that the other one fails to write. -/
theorem step_live_of_not_canWrite {c : Call} {cs : List Call} (hdry : w.dryRun = true)
    (hplain : IsPlain w.outdir)
    (ht : t.Connected) (hgrown : ∀ l ∈ w.targets (c :: cs), t.Grown u l) (hc : ¬ w.CanWrite t c) :
    ∃ w' fault v v', w.make t c.name c.request = (.ok (), w', t) ∧
      w.live.make u c.name c.request = (.error fault, v, v') := by
  unfold CanWrite at hc
  push Not at hc
  obtain ⟨place, text, action, hprepare, hverdict, hput⟩ := hc
  rw [targets_cons hprepare] at hgrown
  obtain ⟨fault, v, v', hlive⟩ := make_live_eq_error hprepare (hgrown place List.mem_cons_self) ht
    (isPlain_of_prepare hplain hprepare).2 hverdict hput
  exact ⟨_, fault, v, v', make_of_dryRun hdry hprepare hverdict, hlive⟩

theorem answers_session_make {c : Call} {done : Except WriterFault Unit} {w' : Writer}
    {tree' : FileTree} (h : w.make tree c.name c.request = (done, w', tree')) (steps : List Step) :
    (w.session tree (.make c :: steps)).answers =
      (done.map fun _ => none) :: (w'.session tree' steps).answers := by
  simp only [session, step, h]

theorem finalize_live : w.live.finalize.1 = w.finalize.1 := by
  cases hfinalized : w.finalized <;> simp [finalize, live, hfinalized, summary, new]

/-- From a tree, and from one that has grown out of it at all places to come, a dry writer and one
that is not dry give the same answers exactly if all can be written that is to be written. -/
theorem answers_session_live_iff {calls : List Call} (hdry : w.dryRun = true)
    (hplain : IsPlain w.outdir) (ht : t.Connected) (hgrown : ∀ l ∈ w.targets calls, t.Grown u l)
    (hapart : (w.targets calls).Pairwise FileTree.Apart) :
    (w.live.session u (calls.map .make ++ [.finalize])).answers =
      (w.session t (calls.map .make ++ [.finalize])).answers ↔ ∀ c ∈ calls, w.CanWrite t c := by
  induction calls generalizing w u with
  | nil =>
    show [w.live.finalize.1.map some] = [w.finalize.1.map some] ↔ _
    simp [finalize_live]
  | cons c cs ih =>
    rw [List.map_cons, List.cons_append, List.forall_mem_cons]
    by_cases hc : w.CanWrite t c
    · obtain ⟨done, w', v, hmake, hlive, hlater⟩ := step_live hdry hplain ht hgrown hapart hc
      obtain ⟨houtdir, hdryRun, -⟩ := kept_make hmake
      have hrest := @ih w' v (hdryRun.trans hdry) (houtdir ▸ hplain)
      rw [targets_congr houtdir] at hrest
      simp only [canWrite_congr houtdir] at hrest
      rw [answers_session_make hmake, answers_session_make hlive, List.cons_inj_right,
        and_iff_right hc]
      exact hrest hlater (hapart.sublist (w.targets_sublist c cs))
    · obtain ⟨w', fault, v, v', hmake, hlive⟩ := step_live_of_not_canWrite hdry hplain ht hgrown hc
      rw [answers_session_make hmake, answers_session_make hlive]
      refine iff_of_false ?_ (fun hall => hc hall.1)
      intro heq
      cases (List.cons.inj heq).1

/-! ### The whole run -/

/-- **A dry run tells what a run would do.** For a directory that exists, a dry run touches nothing,
whatever it is asked for. If the places of some calls are apart, the dry run answers every call, and
the end of the run, as a run that writes, exactly if the system can write all that the dry run finds
to write. -/
theorem dryRun_predicts {cwd : Location} {outdir : Path} {real : Writer} (hcwd : IsPlain cwd)
    (htree : tree.Connected) (hreal : create tree cwd outdir false = .ok real) :
    ∃ dry, create tree cwd outdir true = .ok dry ∧ (∀ steps, (dry.session tree steps).tree = tree) ∧
      ∀ calls : List Call, (real.targets calls).Pairwise FileTree.Apart →
        ((dry.session tree (calls.map .make ++ [.finalize])).answers =
          (real.session tree (calls.map .make ++ [.finalize])).answers ↔ ∀ c ∈ calls,
            real.CanWrite tree c) := by
  obtain ⟨hnull, -, rfl⟩ := create_eq_ok_iff.mp hreal
  refine ⟨{ outdir := outdir.normalize cwd, dryRun := true },
    create_eq_ok_iff.mpr ⟨hnull, .inl rfl, rfl⟩, session_dryRun rfl tree, ?_⟩
  intro calls hapart
  rw [eq_comm]
  exact answers_session_live_iff (w := { outdir := outdir.normalize cwd, dryRun := true }) rfl
    (hcwd.normalize outdir) htree (fun l _ => .refl tree l) hapart

def siblingCalls : List Call :=
  [⟨.str "sub/a.json", { data := .obj [] }⟩, ⟨.str "sub/b.json", { data := .obj [] }⟩]

theorem canWrite_of_prepare {c : Call} (hprepare : w.prepare c.name c.request = .ok (place, text))
    (hput : (put tree place text).1 = .ok ()) : w.CanWrite tree c := by
  intro place' text' action h _
  rw [hprepare] at h
  cases h
  exact hput

/-- The run makes the directory with the first file, and the dry run does not: for the second file
they find nothing, the one in the directory and the other without it. -/
theorem dryRun_predicts_siblings :
    IsPlain [] ∧ emptyOutput.Connected ∧
      create emptyOutput [] (.ofString "out") false = .ok outputWriter ∧
      (outputWriter.targets siblingCalls).Pairwise FileTree.Apart ∧
      (∀ c ∈ siblingCalls, outputWriter.CanWrite emptyOutput c) ∧
      ∃ dry, create emptyOutput [] (.ofString "out") true = .ok dry ∧
        (dry.session emptyOutput (siblingCalls.map .make ++ [.finalize])).tree = emptyOutput ∧
        (dry.session emptyOutput (siblingCalls.map .make ++ [.finalize])).answers =
          (outputWriter.session emptyOutput (siblingCalls.map .make ++ [.finalize])).answers := by
  have hcreate : create emptyOutput [] (.ofString "out") false = .ok outputWriter := rfl
  have hfirst : outputWriter.prepare (.str "sub/a.json") { data := .obj [] } =
    .ok (["out", "sub", "a.json"], some ['\x7b', '\x7d', '\n']) := rfl
  have hsecond : outputWriter.prepare (.str "sub/b.json") { data := .obj [] } =
    .ok (["out", "sub", "b.json"], some ['\x7b', '\x7d', '\n']) := rfl
  have hapart : (outputWriter.targets siblingCalls).Pairwise FileTree.Apart := by
    have htargets : outputWriter.targets siblingCalls =
        [["out", "sub", "a.json"], ["out", "sub", "b.json"]] := by
      simp [targets, siblingCalls, hfirst, hsecond, Except.toOption]
    rw [htargets]
    simp [FileTree.Apart]
  have hwrite : ∀ c ∈ siblingCalls, outputWriter.CanWrite emptyOutput c := by
    simp only [siblingCalls, List.forall_mem_cons]
    exact ⟨canWrite_of_prepare hfirst rfl, canWrite_of_prepare hsecond rfl, by simp⟩
  obtain ⟨dry, hdry, htree, hanswers⟩ := dryRun_predicts (by decide) (by decide) hcreate
  exact ⟨by decide, by decide, hcreate, hapart, hwrite, dry, hdry, htree _,
    (hanswers siblingCalls hapart).mpr hwrite⟩

end StyleGuide.Writer
