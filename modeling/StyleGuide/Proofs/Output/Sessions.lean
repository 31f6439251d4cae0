import StyleGuide.Proofs.Output.Accounting

/-!
# Sessions, and what a failed call leaves behind

A session is a sequence of steps of one writer, each of which may fail. A call that is refused for
its name or its contents leaves no trace. A call that fails on what it finds in its place has been
noted by then: all later steps go as they would have gone, but a summary counts one new file too
many, unless the place is noted by another call too (`Noted.session`). A call that fails while it
writes is in the account as well. So the writer and the files are as before exactly in the first
case, or if the place was noted before (`failed_make_leaves`).
-/

namespace StyleGuide.Writer

open FileTree

variable {w w' u : Writer} {tree tree' : FileTree} {name : Json} {r : OutputRequest}
  {place : Location}

/-! ### Sessions -/

/-- What is asked of a writer: to make a file, or to end the run. -/
inductive Step where
  | make (call : Call)
  | finalize

/-- What a step answers: a summary if it ends the run, or a fault. -/
abbrev Answer := Except WriterFault (Option String)

def step (w : Writer) (tree : FileTree) : Step → Answer × Writer × FileTree
  | .make c =>
    let (done, rest) := w.make tree c.name c.request
    (done.map fun _ => none, rest)
  | .finalize =>
    let (done, w') := w.finalize
    (done.map some, w', tree)

/-- The answers of some steps, and the writer and the files after them. -/
structure Session where
  answers : List Answer
  writer : Writer
  tree : FileTree

def session (w : Writer) (tree : FileTree) : List Step → Session
  | [] => ⟨[], w, tree⟩
  | s :: ss =>
    let (answer, w', tree') := w.step tree s
    let later := w'.session tree' ss
    { later with answers := answer :: later.answers }

theorem session_cons (s : Step) (ss : List Step) :
    w.session tree (s :: ss) =
      { (w.step tree s).2.1.session (w.step tree s).2.2 ss with
        answers := (w.step tree s).1 ::
          ((w.step tree s).2.1.session (w.step tree s).2.2 ss).answers } := rfl

/-! ### A place more -/

/-- The second writer is the first one with a note of the place. -/
structure Noted (place : Location) (w u : Writer) : Prop where
  else_same : u = { w with made := u.made }
  mem_iff : ∀ l, l ∈ u.made ↔ l ∈ w.made ∨ l = place
  length : u.made.length = w.made.length + if place ∈ w.made then 0 else 1

/-- A writer and the same with one more place noted differ by that alone. -/
theorem noted_note (w : Writer) (place : Location) : Noted place w (w.note place) := by
  rw [note_eq]
  by_cases h : place ∈ w.made
  · rw [if_pos h]
    refine ⟨rfl, ?_, by simp [h]⟩
    intro l
    constructor
    · exact .inl
    · rintro (hl | rfl)
      · exact hl
      · exact h
  · rw [if_neg h]
    exact ⟨rfl, by simp, by simp [h]⟩

namespace Noted

theorem note (h : Noted place w u) (l : Location) : Noted place (w.note l) (u.note l) := by
  have hw := noted_note w l
  have hu := noted_note u l
  refine ⟨?_, ?_, ?_⟩
  · rw [note_eq, note_eq, h.else_same]
  · intro m
    rw [hu.mem_iff, h.mem_iff, hw.mem_iff, or_right_comm]
  · rw [hu.length, h.length, hw.length, Nat.add_right_comm]
    simp only [h.mem_iff, hw.mem_iff]
    by_cases hplace : l = place
    · simp [hplace]
    · simp [hplace, Ne.symm hplace, Nat.add_right_comm]

theorem account (h : Noted place w u) (l : Location) (action : Option Action) :
    Noted place (w.account l action) (u.account l action) := by
  refine ⟨?_, ?_, ?_⟩
  · rw [h.else_same]
    cases action <;> rfl
  · rw [(kept_account action).1, (kept_account action).1]
    exact h.mem_iff
  · rw [(kept_account action).1, (kept_account action).1]
    exact h.length

/-- The number of new files is one too high, unless the place is one of them. -/
theorem new_eq (h : Noted place w u) : u.new = w.new + if place ∈ w.made then 0 else 1 := by
  have hlength := h.length
  have hsame : u.same = w.same := by rw [h.else_same]
  have hchanged : u.changed = w.changed := by rw [h.else_same]
  rw [new, new, hlength, hsame, hchanged]
  split <;> omega

end Noted

/-- The answers are the same, but the second one may be a summary that counts one new file more. -/
def Overcounts (a b : Answer) : Prop :=
  b = a ∨ ∃ v : Writer, a = .ok (some v.summary) ∧
    b = .ok (some s!"Outputs: {v.same} same, {v.changed} changed, {v.new + 1} new")

namespace Noted

/-- A note makes no difference to a call. -/
theorem make (h : Noted place w u) (tree : FileTree) (name : Json) (r : OutputRequest) :
    (u.make tree name r).1 = (w.make tree name r).1 ∧
      (u.make tree name r).2.2 = (w.make tree name r).2.2 ∧
      Noted place (w.make tree name r).2.1 (u.make tree name r).2.1 := by
  have hprepare : u.prepare name r = w.prepare name r := by
    rw [h.else_same]
    rfl
  have hdry (l : Location) : (u.note l).dryRun = (w.note l).dryRun := by
    rw [(h.note l).else_same]
  unfold Writer.make
  rw [hprepare]
  split
  · exact ⟨rfl, rfl, h⟩
  · next l text _ =>
    dsimp only
    split
    · exact ⟨rfl, rfl, h.note l⟩
    · next action _ =>
      rw [hdry]
      exact ⟨rfl, rfl, (h.note l).account l action⟩

/-- The end of a run shows a note in the number of new files. -/
theorem finalize (h : Noted place w u) :
    Overcounts (w.finalize.1.map some) (u.finalize.1.map some) ∧
      Noted place w.finalize.2 u.finalize.2 := by
  have hfinalized : u.finalized = w.finalized := by rw [h.else_same]
  have hsame : u.same = w.same := by rw [h.else_same]
  have hchanged : u.changed = w.changed := by rw [h.else_same]
  unfold Writer.finalize
  rw [hfinalized]
  split
  · exact ⟨.inl rfl, h⟩
  · refine ⟨?_, by rw [h.else_same], h.mem_iff, h.length⟩
    have hsummary : u.summary = s!"Outputs: {w.same} same, {w.changed} changed, {u.new} new" := by
      rw [summary, hsame, hchanged]
    have hnew := h.new_eq
    split at hnew
    · rw [Int.add_zero] at hnew
      left
      rw [hsummary, hnew]
      rfl
    · right
      refine ⟨w, rfl, ?_⟩
      rw [hsummary, hnew]
      rfl

/-- A note makes no difference to a session, but for the number of new files. -/
theorem session (h : Noted place w u) (tree : FileTree) (steps : List Step) :
    (u.session tree steps).tree = (w.session tree steps).tree ∧
      List.Forall₂ Overcounts (w.session tree steps).answers (u.session tree steps).answers ∧
      Noted place (w.session tree steps).writer (u.session tree steps).writer := by
  induction steps generalizing w u tree with
  | nil => exact ⟨rfl, .nil, h⟩
  | cons s ss ih =>
    obtain ⟨hanswer, htree, hnext⟩ : Overcounts (w.step tree s).1 (u.step tree s).1 ∧
        (u.step tree s).2.2 = (w.step tree s).2.2 ∧
        Noted place (w.step tree s).2.1 (u.step tree s).2.1 := by
      cases s with
      | make c =>
        obtain ⟨hdone, htree, hnext⟩ := h.make tree c.name c.request
        exact ⟨.inl (congrArg (Except.map fun _ => none) hdone), htree, hnext⟩
      | finalize => exact ⟨h.finalize.1, rfl, h.finalize.2⟩
    obtain ⟨htrees, hanswers, hlast⟩ := ih hnext (w.step tree s).2.2
    rw [session_cons, session_cons, htree]
    exact ⟨htrees, .cons hanswer hanswers, hlast⟩

end Noted

/-! ### Calls that fail -/

/-- The call is refused for its name or its contents, whatever the files are. -/
def Refused (w : Writer) (name : Json) (r : OutputRequest) : Prop :=
    ∃ fault, w.prepare name r = .error fault

/-- The call fails on what is in its place, or above it. -/
def Blocked (w : Writer) (tree : FileTree) (name : Json) (r : OutputRequest)
    (place : Location) : Prop :=
  ∃ text fault, w.prepare name r = .ok (place, text) ∧ verdict tree place text = .error fault

/-- The second session is the first one, with one new file more in its summaries unless the place is
made in the first session too. -/
structure OnlyNoted (place : Location) (s t : Session) : Prop where
  tree : t.tree = s.tree
  answers : List.Forall₂ Overcounts s.answers t.answers
  updates : t.writer.updates = s.writer.updates
  same : t.writer.same = s.writer.same
  changed : t.writer.changed = s.writer.changed
  new : t.writer.new = s.writer.new + if place ∈ s.writer.made then 0 else 1

/-- Writers that differ by a noted place go on differing by it alone. -/
theorem Noted.onlyNoted (h : Noted place w u) (tree : FileTree) (steps : List Step) :
    OnlyNoted place (w.session tree steps) (u.session tree steps) := by
  obtain ⟨htree, hanswers, hlast⟩ := h.session tree steps
  refine ⟨htree, hanswers, ?_, ?_, ?_, hlast.new_eq⟩
  all_goals rw [hlast.else_same]

/-- A write that fails leaves the other files as they are, and all of them if there was a text to
write. -/
theorem file?_put_error {text : Option Text} {fault : WriterFault} (hne : place ≠ [])
    (h : put tree place text = (.error fault, tree')) :
    (∀ l ≠ place, tree'.file? l = tree.file? l) ∧ (text.isSome = true → tree.SameFiles tree') := by
  cases text with
  | some text =>
    obtain ⟨hother, hfault⟩ := file?_put hne h
    exact ⟨hother, fun _ => hfault (by simp)⟩
  | none =>
    refine ⟨?_, fun hsome => absurd hsome (by simp)⟩
    intro l hl
    unfold put at h
    split at h
    · cases h
      exact sameFiles_makeParents tree _ l
    · cases h
      rw [file?_write _ _ _ _ hne, if_neg hl]

/-- Noting a place changes nothing exactly if it was noted before. -/
theorem note_eq_self_iff : w.note place = w ↔ place ∈ w.made := by
  have h := noted_note w place
  constructor
  · intro hself
    rw [← hself]
    exact (h.mem_iff place).mpr (.inr rfl)
  · intro hmem
    rw [note_eq, if_pos hmem]

theorem not_refused_of_prepare {text : Option Text} (h : w.prepare name r = .ok (place, text)) :
    ¬ w.Refused name r := by
  rintro ⟨fault, hfault⟩
  rw [h] at hfault
  cases hfault

theorem Blocked.place_eq {l : Location} (h : w.Blocked tree name r l) {text : Option Text}
    (hprepare : w.prepare name r = .ok (place, text)) : l = place := by
  obtain ⟨_, _, hother, -⟩ := h
  rw [hprepare] at hother
  cases hother
  rfl

/-- A call that has a verdict is not blocked. -/
theorem not_blocked_of_verdict {text : Option Text} {action : Option Action}
    (hprepare : w.prepare name r = .ok (place, text))
    (hverdict : verdict tree place text = .ok action)
    (l : Location) : ¬ w.Blocked tree name r l := by
  rintro ⟨_, fault, hother, hfault⟩
  rw [hprepare] at hother
  cases hother
  rw [hverdict] at hfault
  cases hfault

/-- The three ways in which a call fails. -/
theorem make_error_cases {fault : WriterFault}
    (h : w.make tree name r = (.error fault, w', tree')) :
    (w.Refused name r ∧ w' = w ∧ tree' = tree) ∨
    ∃ place text, w.prepare name r = .ok (place, text) ∧
      ((w.Blocked tree name r place ∧ w' = w.note place ∧ tree' = tree) ∨
        ∃ action, verdict tree place text = .ok (some action) ∧
          w'.updates = w.updates ++ [(action, place)] ∧
          (∀ l ≠ place, tree'.file? l = tree.file? l) ∧
            (text.isSome = true → tree.SameFiles tree')) := by
  obtain ⟨refusal, hprepare, -, rfl, rfl⟩ | ⟨place, text, hprepare, hcall⟩ := make_cases h
  · exact .inl ⟨⟨refusal, hprepare⟩, rfl, rfl⟩
  · refine .inr ⟨place, text, hprepare, ?_⟩
    obtain ⟨cause, hverdict, -, rfl, rfl⟩ | ⟨action, hverdict, rfl, hput⟩ := hcall
    · exact .inl ⟨⟨text, cause, hprepare, hverdict⟩, rfl, rfl⟩
    · -- A call fails here only if it writes, so there is something to do.
      cases action with
      | none => cases hput
      | some action =>
        obtain ⟨-, s, -, hresolve⟩ := prepare_eq_ok hprepare
        split at hput
        · refine .inr ⟨action, hverdict, ?_, file?_put_error (ne_nil_of_resolve hresolve) hput.symm⟩
          rw [note_eq]
          rfl
        · cases hput

/-- **What a failed call leaves behind.** The writer and the files are as before exactly if the call
was refused, or was blocked at a place that was noted before. A blocked call changes no file, and
all later steps go as if it had not been made, but for the number of new files. Any other call that
fails is in the account as if it had been made, and leaves at least all other files as they are. -/
theorem failed_make_leaves {fault : WriterFault}
    (h : w.make tree name r = (.error fault, w', tree')) :
    (w' = w ∧ tree' = tree ↔ w.Refused name r ∨ ∃ place ∈ w.made, w.Blocked tree name r place) ∧
      (∀ place, w.Blocked tree name r place →
        tree' = tree ∧ ∀ later, OnlyNoted place (w.session tree later) (w'.session tree' later)) ∧
      (¬ w.Refused name r → (∀ place, ¬ w.Blocked tree name r place) →
        ∃ place text action, w.prepare name r = .ok (place, text) ∧
          w'.updates = w.updates ++ [(action, place)] ∧
          (∀ l ≠ place, tree'.file? l = tree.file? l) ∧
            (text.isSome = true → tree.SameFiles tree')) := by
  obtain ⟨hrefused, rfl, rfl⟩ | ⟨place, text, hprepare, hcall⟩ := make_error_cases h
  -- The call is refused before anything happens.
  · refine ⟨⟨fun _ => .inl hrefused, fun _ => ⟨rfl, rfl⟩⟩, ?_, fun hnot => absurd hrefused hnot⟩
    rintro place ⟨text, cause, hprepare, -⟩
    exact absurd hrefused (not_refused_of_prepare hprepare)
  · have hnot := not_refused_of_prepare hprepare
    obtain ⟨hblocked, rfl, rfl⟩ | ⟨action, hverdict, hupdates, hfiles⟩ := hcall
    -- The place is noted, but what is there cannot be compared.
    · refine ⟨?_, ?_, fun _ hnone => absurd hblocked (hnone place)⟩
      · rw [note_eq_self_iff]
        constructor
        · rintro ⟨hmade, -⟩
          exact .inr ⟨place, hmade, hblocked⟩
        · rintro (hrefused | ⟨l, hmade, hl⟩)
          · exact absurd hrefused hnot
          · exact ⟨hl.place_eq hprepare ▸ hmade, rfl⟩
      · intro l hl
        rw [hl.place_eq hprepare]
        exact ⟨rfl, (noted_note w place).onlyNoted tree'⟩
    -- The update is noted before the file is written, so it stays in the account.
    · have hnone := not_blocked_of_verdict hprepare hverdict
      refine ⟨?_, fun l hl => absurd hl (hnone l),
        fun _ _ => ⟨place, text, action, hprepare, hupdates, hfiles⟩⟩
      constructor
      · rintro ⟨rfl, -⟩
        simp at hupdates
      · rintro (hrefused | ⟨l, -, hl⟩)
        · exact absurd hrefused hnot
        · exact absurd hl (hnone l)

/-- An output directory in which a directory has the name of a file. -/
def occupiedOutput : FileTree := ⟨[(["out"], .dir), (["out", "a.json"], .dir)]⟩

def outputWriter : Writer := { outdir := ["out"], dryRun := false }

/-- A file that cannot be made because there is a directory: the summary counts it as new. -/
theorem failed_make_leaves_directory :
    ∃ w', outputWriter.make occupiedOutput (.str "a.json") { data := .obj [] } =
        (.error (.file .isDirectory), w', occupiedOutput) ∧
      outputWriter.Blocked occupiedOutput (.str "a.json") { data := .obj [] } ["out", "a.json"] ∧
      w' ≠ outputWriter ∧
      (outputWriter.session occupiedOutput [.finalize]).answers =
        [.ok (some "Outputs: 0 same, 0 changed, 0 new")] ∧
      (w'.session occupiedOutput [.finalize]).answers =
        [.ok (some "Outputs: 0 same, 0 changed, 1 new")] ∧
      (w'.session occupiedOutput [.finalize]).writer.new =
        (outputWriter.session occupiedOutput [.finalize]).writer.new + 1 := by
  have hprepare : outputWriter.prepare (.str "a.json") { data := .obj [] } =
    .ok (["out", "a.json"], some ['\x7b', '\x7d', '\n']) := rfl
  have hverdict : verdict occupiedOutput ["out", "a.json"] (some ['\x7b', '\x7d', '\n']) =
    .error .isDirectory := rfl
  have hmake : outputWriter.make occupiedOutput (.str "a.json") { data := .obj [] } =
      (.error (.file .isDirectory), outputWriter.note ["out", "a.json"], occupiedOutput) := by
    rw [make, hprepare]
    dsimp only
    rw [hverdict]
  have hblocked :
      outputWriter.Blocked occupiedOutput (.str "a.json") { data := .obj [] } ["out", "a.json"] :=
    ⟨_, .isDirectory, hprepare, hverdict⟩
  obtain ⟨hsame, hlater, -⟩ := failed_make_leaves hmake
  refine ⟨_, hmake, hblocked, ?_, rfl, rfl, ((hlater _ hblocked).2 [.finalize]).new⟩
  intro heq
  rcases hsame.mp ⟨heq, rfl⟩ with ⟨fault, hfault⟩ | ⟨l, hl, -⟩
  · rw [hprepare] at hfault
    cases hfault
  · cases hl

end StyleGuide.Writer
