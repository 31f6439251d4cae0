import StyleGuide.Proofs.Output.Calls

/-!
# What the summary counts

Every call of a writer visits one place. Only the first visit of a place can find nothing there, or
a file that is no text, because each call leaves a text behind (`Settled.make`). The writer counts
the calls that find a text, and gets its number of new files by taking them away from the number of
files. So it takes a file away once for each further call: the number is too small by the repeated
calls and too large by the files that are no text, and it is right exactly when these are equally
many (`finalize_counts`).
-/

namespace StyleGuide.Writer

open FileTree

/-- A call of a writer: the name of a file, and what to write there. -/
structure Call where
  name : Json
  request : OutputRequest

/-- The calls one after the other, each of which has to succeed. -/
def makeAll (w : Writer) (tree : FileTree) : List Call → Except WriterFault (Writer × FileTree)
  | [] => .ok (w, tree)
  | c :: cs =>
    match w.make tree c.name c.request with
    | (.ok (), w', tree') => w'.makeAll tree' cs
    | (.error fault, _, _) => .error fault

/-- The place of a call, and the files as the call finds them. -/
structure Visit where
  place : Location
  before : FileTree

namespace Visit

def isFresh (v : Visit) : Bool := (v.before.lookup? v.place).isNone

/-- The file that is there is no text. -/
def isUnreadable (v : Visit) : Bool :=
  (v.before.file? v.place).any fun bytes => (readText bytes).toOption.isNone

/-- The visits of places that are visited for the first time, after those that are seen already. -/
def firstsAfter (seen : List Location) : List Visit → List Visit
  | [] => []
  | v :: vs =>
    if v.place ∈ seen then firstsAfter seen vs else v :: firstsAfter (seen ++ [v.place]) vs

end Visit

def visits (w : Writer) (tree : FileTree) : List Call → List Visit
  | [] => []
  | c :: cs =>
    match w.prepare c.name c.request, w.make tree c.name c.request with
    | .ok (place, _), (_, w', tree') => ⟨place, tree⟩ :: w'.visits tree' cs
    | .error _, (_, w', tree') => w'.visits tree' cs

/-! ### First visits -/

namespace Visit

theorem notMem_seen {seen : List Location} {vs : List Visit} {v : Visit}
    (h : v ∈ firstsAfter seen vs) :
    v.place ∉ seen := by
  induction vs generalizing seen with
  | nil => cases h
  | cons u vs ih =>
    rw [firstsAfter] at h
    split at h
    · exact ih h
    · next hnew =>
      rcases List.mem_cons.mp h with rfl | h
      · exact hnew
      · exact fun hmem => ih h (List.mem_append_left _ hmem)

theorem length_firstsAfter_le (seen : List Location) (vs : List Visit) :
    (firstsAfter seen vs).length ≤ vs.length := by
  induction vs generalizing seen with
  | nil => exact Nat.le_refl 0
  | cons v vs ih =>
    rw [firstsAfter]
    split
    · exact Nat.le_succ_of_le (ih seen)
    · exact Nat.succ_le_succ (ih _)

/-- No two first visits are of one place. -/
theorem nodup_firstsAfter (seen : List Location) (vs : List Visit) :
    ((firstsAfter seen vs).map place).Nodup := by
  induction vs generalizing seen with
  | nil => exact List.nodup_nil
  | cons v vs ih =>
    rw [firstsAfter]
    split
    · exact ih seen
    · rw [List.map_cons, List.nodup_cons]
      refine ⟨?_, ih _⟩
      intro hmem
      obtain ⟨u, hu, huv⟩ := List.mem_map.mp hmem
      exact notMem_seen hu (huv ▸ List.mem_append_right _ (List.mem_singleton_self _))

/-- Every place that is visited and was not seen before has a first visit. -/
theorem mem_firstsAfter_iff (seen : List Location) (vs : List Visit) (l : Location) :
    l ∈ (firstsAfter seen vs).map place ↔ l ∈ vs.map place ∧ l ∉ seen := by
  induction vs generalizing seen with
  | nil => simp [firstsAfter]
  | cons v vs ih =>
    rw [firstsAfter]
    split
    · next hseen =>
      rw [ih, List.map_cons, List.mem_cons]
      constructor
      · rintro ⟨hl, hnot⟩
        exact ⟨.inr hl, hnot⟩
      · rintro ⟨rfl | hl, hnot⟩
        · exact absurd hseen hnot
        · exact ⟨hl, hnot⟩
    · next hnew =>
      rw [List.map_cons, List.mem_cons, ih, List.map_cons, List.mem_cons, List.mem_append,
        List.mem_singleton]
      by_cases hl : l = v.place
      · simp [hl, hnew]
      · simp [hl]

end Visit

/-! ### One call -/

/-- A writer that writes, on files where all that it has made is text. -/
structure Settled (w : Writer) (tree : FileTree) : Prop where
  writes : w.dryRun = false
  plain : IsPlain w.outdir
  connected : tree.Connected
  readable : ∀ l ∈ w.made, ∃ bytes text, tree.file? l = some bytes ∧ readText bytes = .ok text

variable {w w' : Writer} {tree tree' : FileTree} {name : Json} {r : OutputRequest}
  {place : Location}

/-- What a call counts, at the place that it visits. -/
structure Counts (w w' : Writer) (v : Visit) : Prop where
  made : w'.made = if v.place ∈ w.made then w.made else w.made ++ [v.place]
  found : w'.same + w'.changed + (if v.isFresh then 1 else 0) + (if v.isUnreadable then 1 else 0) =
    w.same + w.changed + 1
  finalized : w'.finalized = w.finalized

/-- A call that finds a text counts it, as the same or as changed; any other counts nothing. -/
theorem counts_account {text : Text} {action : Option Action} (htree : tree.Connected)
    (hplain : IsPlain place) (hverdict : verdict tree place (some text) = .ok action) :
    w.Counts ((w.note place).account place action) ⟨place, tree⟩ := by
  rw [note_eq]
  refine ⟨(kept_account action).1, ?_, (kept_account action).2.2.2⟩
  -- There is a text in the place, a file that is no text, or no file.
  obtain ⟨-, ⟨bytes, old, hfile, hread, rfl⟩ | ⟨bytes, fault, hfile, hread, rfl⟩ | ⟨hnone, rfl⟩⟩ :=
    verdict_cases htree hplain hverdict
  · have hfresh : Visit.isFresh ⟨place, tree⟩ = false := by
      simp [Visit.isFresh, file?_eq_some_iff.mp hfile]
    have hunreadable : Visit.isUnreadable ⟨place, tree⟩ = false := by
      simp [Visit.isUnreadable, hfile, hread, Except.toOption]
    rw [hfresh, hunreadable]
    by_cases hold : old = text
    · rw [if_pos hold]
      show w.same + 1 + w.changed + 0 + 0 = w.same + w.changed + 1
      omega
    · rw [if_neg hold]
      show w.same + (w.changed + 1) + 0 + 0 = w.same + w.changed + 1
      omega
  · have hfresh : Visit.isFresh ⟨place, tree⟩ = false := by
      simp [Visit.isFresh, file?_eq_some_iff.mp hfile]
    have hunreadable : Visit.isUnreadable ⟨place, tree⟩ = true := by
      simp [Visit.isUnreadable, hfile, hread, Except.toOption]
    rw [hfresh, hunreadable]
    rfl
  · have hfresh : Visit.isFresh ⟨place, tree⟩ = true := by
      simp [Visit.isFresh, hnone]
    have hunreadable : Visit.isUnreadable ⟨place, tree⟩ = false := by
      simp [Visit.isUnreadable, file?, hnone]
    rw [hfresh, hunreadable]
    rfl

/-- The place of a call holds a text afterwards. -/
theorem exists_text_of_verdict {text : Text} {action : Option Action} (htree : tree.Connected)
    (hplain : IsPlain place) (hne : place ≠ [])
    (hverdict : verdict tree place (some text) = .ok action) :
    ∃ bytes old, (if action.isSome then tree.write place (Utf8.encode text) else tree).file? place =
      some bytes ∧ readText bytes = .ok old := by
  cases action with
  | some action =>
    refine ⟨Utf8.encode text, _, ?_, readText_encode_eq text⟩
    show (tree.write place (Utf8.encode text)).file? place = some (Utf8.encode text)
    rw [file?_write _ _ _ _ hne, if_pos rfl]
  | none =>
    obtain ⟨-, ⟨bytes, old, hfile, hread, -⟩ | ⟨_, _, _, _, hcreate⟩ | ⟨_, hcreate⟩⟩ :=
      verdict_cases htree hplain hverdict
    · exact ⟨bytes, old, hfile, hread⟩
    · cases hcreate
    · cases hcreate

/-- A call that succeeds counts its place, and leaves the writer settled. -/
theorem Settled.make (h : w.Settled tree) (hcall : w.make tree name r = (.ok (), w', tree')) :
    ∃ place text, w.prepare name r = .ok (place, text) ∧ w.Counts w' ⟨place, tree⟩ ∧
      w'.Settled tree' := by
  obtain ⟨place, text, action, hprepare, hverdict, rfl, rfl, -⟩ := make_eq_ok h.writes hcall
  obtain ⟨-, s, -, hresolve⟩ := prepare_eq_ok hprepare
  have hne := ne_nil_of_resolve hresolve
  have hplain : IsPlain place := (resolve_eq_ok hresolve).2.1 ▸ h.plain.normalize _
  have hcounts := w.counts_account h.connected hplain hverdict
  refine ⟨place, some text, hprepare, hcounts, ?_, ?_, ?_, ?_⟩
  · rw [(kept_account action).2.2.1, note_eq]
    exact h.writes
  · rw [(kept_account action).2.1, note_eq]
    exact h.plain
  · split
    · exact h.connected.write hne (verdict_cases h.connected hplain hverdict).1 _
    · exact h.connected
  · intro l hl
    by_cases hlp : l = place
    · rw [hlp]
      exact exists_text_of_verdict h.connected hplain hne hverdict
    · have hmade : l ∈ w.made := by
        rw [hcounts.made] at hl
        split at hl
        · exact hl
        · exact (List.mem_append.mp hl).resolve_right (by simpa using hlp)
      obtain ⟨bytes, old, hfile, hread⟩ := h.readable l hmade
      refine ⟨bytes, old, ?_, hread⟩
      split
      · rw [file?_write _ _ _ _ hne, if_neg hlp, hfile]
      · exact hfile

/-! ### All calls -/

/-- What a writer has made is neither new nor unreadable. -/
theorem Settled.not_fresh (h : w.Settled tree) (hmade : place ∈ w.made) :
    Visit.isFresh ⟨place, tree⟩ = false ∧ Visit.isUnreadable ⟨place, tree⟩ = false := by
  obtain ⟨bytes, text, hfile, hread⟩ := h.readable place hmade
  constructor
  · simp [Visit.isFresh, file?_eq_some_iff.mp hfile]
  · simp [Visit.isUnreadable, hfile, hread, Except.toOption]

/-- What the writer counts over some calls, told by the places that they visit. -/
structure Tallies (w w' : Writer) (calls : List Call) (vs : List Visit) : Prop where
  visited : vs.length = calls.length
  made : w'.made = w.made ++ (Visit.firstsAfter w.made vs).map Visit.place
  found : w'.same + w'.changed + (Visit.firstsAfter w.made vs).countP Visit.isFresh +
    (Visit.firstsAfter w.made vs).countP Visit.isUnreadable = w.same + w.changed + calls.length
  finalized : w'.finalized = w.finalized

/-- The first of some calls makes a file, or comes back to one. -/
theorem Counts.tallies_cons {u : Writer} {c : Call} {cs : List Call} {v : Visit} {vs : List Visit}
    (h : w.Counts u v) (hback : v.place ∈ w.made → v.isFresh = false ∧ v.isUnreadable = false)
    (htail : u.Tallies w' cs vs) : w.Tallies w' (c :: cs) (v :: vs) := by
  have hmade := htail.made
  have hlater := htail.found
  have hfound := h.found
  rw [h.made] at hmade hlater
  refine ⟨congrArg (· + 1) htail.visited, ?_, ?_, htail.finalized.trans h.finalized⟩
  · rw [hmade, Visit.firstsAfter]
    split
    · rfl
    · rw [List.append_assoc]
      rfl
  · rw [Visit.firstsAfter, List.length_cons]
    by_cases hmem : v.place ∈ w.made
    · obtain ⟨hfresh, hunreadable⟩ := hback hmem
      rw [hfresh, hunreadable] at hfound
      rw [if_pos hmem] at hlater ⊢
      simp only [Bool.false_eq_true, if_false] at hfound
      omega
    · rw [if_neg hmem] at hlater ⊢
      rw [List.countP_cons, List.countP_cons]
      omega

/-- Calls that succeed add up, one visit each. -/
theorem Settled.tallies {calls : List Call} (h : w.Settled tree)
    (hcalls : w.makeAll tree calls = .ok (w', tree')) :
      w.Tallies w' calls (w.visits tree calls) := by
  induction calls generalizing w tree with
  | nil =>
    cases hcalls
    exact ⟨rfl, (List.append_nil _).symm, rfl, rfl⟩
  | cons c cs ih =>
    unfold makeAll at hcalls
    split at hcalls
    · next u tree₁ hcall =>
      obtain ⟨place, text, hprepare, hcounts, hsettled⟩ := h.make hcall
      have hvisits : w.visits tree (c :: cs) = ⟨place, tree⟩ :: u.visits tree₁ cs := by
        rw [visits, hprepare, hcall]
      rw [hvisits]
      exact hcounts.tallies_cons h.not_fresh (ih hsettled hcalls)
    · cases hcalls

/-! ### The summary -/

/-- A new writer is settled: it has made nothing and counted nothing. -/
theorem settled_of_create {cwd : Location} {outdir : Path} (hcwd : IsPlain cwd)
    (htree : tree.Connected) (h : create tree cwd outdir false = .ok w) : w.Settled tree := by
  obtain ⟨-, -, rfl⟩ := create_eq_ok_iff.mp h
  exact ⟨rfl, hcwd.normalize outdir, htree, fun _ hl => absurd hl List.not_mem_nil⟩

/-- **What the summary counts.** The three numbers add up to the number of files. The number of new
files is that of the files that were not there, less one for each repeated call and with one more
for each file that was no text. -/
theorem finalize_counts {cwd : Location} {outdir : Path} {calls : List Call} {done : Writer}
    (hcwd : IsPlain cwd) (htree : tree.Connected) (hcreate : create tree cwd outdir false = .ok w)
    (hcalls : w.makeAll tree calls = .ok (done, tree')) :
    let visits := w.visits tree calls
    let files := Visit.firstsAfter [] visits
    let fresh := files.countP Visit.isFresh
    let unreadable := files.countP Visit.isUnreadable
    let repeats := calls.length - files.length
    (files.map Visit.place).Nodup ∧ (∀ l, l ∈ files.map Visit.place ↔ l ∈ visits.map Visit.place) ∧
      visits.length = calls.length ∧
      done.finalize.1 = .ok s!"Outputs: {done.same} same, {done.changed} changed, {done.new} new" ∧
      done.same + done.changed + done.new = files.length ∧
      done.new = fresh + unreadable - repeats ∧ (done.new = fresh ↔ unreadable = repeats) := by
  intro visits files fresh unreadable repeats
  obtain ⟨hvisited, hmade, hfound, hfinalized⟩ :=
    (settled_of_create hcwd htree hcreate).tallies hcalls
  obtain ⟨-, -, rfl⟩ := create_eq_ok_iff.mp hcreate
  have hlength : done.made.length = files.length := by
    rw [hmade]
    exact List.length_map _
  have hle : files.length ≤ calls.length := hvisited ▸ Visit.length_firstsAfter_le [] visits
  -- New files are not counted, they are what is left of all files that were made.
  have hnew : done.new = (files.length : Int) - done.same - done.changed := by
    rw [new, hlength]
  have hcounted : done.same + done.changed + fresh + unreadable = calls.length := by
    simpa using hfound
  refine ⟨Visit.nodup_firstsAfter [] visits, ?_, hvisited, ?_, ?_, ?_, ?_⟩
  · intro l
    rw [Visit.mem_firstsAfter_iff]
    simp
  · rw [finalize, if_neg (by simp [hfinalized])]
    rfl
  · omega
  · omega
  · omega

/-- An output directory with nothing in it. -/
def emptyOutput : FileTree := ⟨[(["out"], .dir)]⟩

def emptyMapOutput : FileTree := emptyOutput.write ["out", "a.json"] [123, 125, 10]

def emptyMapCall : Call := ⟨.str "a.json", { data := .obj [] }⟩

/-- The writer after the file is made, and is found the same some times. -/
def emptyMapWriter (same : Nat) : Writer :=
  { outdir := ["out"], dryRun := false, made := [["out", "a.json"]]
    updates := [(.create, ["out", "a.json"])], same }

theorem verdict_emptyMapOutput :
    verdict emptyMapOutput ["out", "a.json"] (some ['{', '}', '\n']) = .ok none :=
  verdict_of_readAt rfl (by decide)

theorem prepare_emptyMapCall (same : Nat) :
    (emptyMapWriter same).prepare emptyMapCall.name emptyMapCall.request =
      .ok (["out", "a.json"], some ['{', '}', '\n']) := by
  show (emptyMapWriter 0).prepare emptyMapCall.name emptyMapCall.request = _
  rfl

theorem make_emptyMapCall (same : Nat) :
    (emptyMapWriter same).make emptyMapOutput emptyMapCall.name emptyMapCall.request =
      (.ok (), emptyMapWriter (same + 1), emptyMapOutput) := by
  rw [make, prepare_emptyMapCall]
  dsimp only
  rw [show (emptyMapWriter same).note ["out", "a.json"] = emptyMapWriter same from rfl,
    verdict_emptyMapOutput]
  rfl

/-- Three calls for one new file. -/
theorem finalize_counts_thrice : ∃ w w' tree', IsPlain [] ∧ emptyOutput.Connected ∧
    create emptyOutput [] (.ofString "out") false = .ok w ∧
    w.makeAll emptyOutput [emptyMapCall, emptyMapCall, emptyMapCall] = .ok (w', tree') ∧
    w'.finalize.1 = .ok "Outputs: 2 same, 0 changed, -1 new" ∧ w'.new = 1 + 0 - 2 := by
  have hcreate : create emptyOutput [] (.ofString "out") false =
    .ok { outdir := ["out"], dryRun := false } := rfl
  have hcalls : makeAll { outdir := ["out"], dryRun := false } emptyOutput
      [emptyMapCall, emptyMapCall, emptyMapCall] = .ok (emptyMapWriter 2, emptyMapOutput) := by
    show makeAll (emptyMapWriter 0) emptyMapOutput [emptyMapCall, emptyMapCall] = _
    rw [makeAll, make_emptyMapCall]
    dsimp only
    rw [makeAll, make_emptyMapCall]
    rfl
  have hvisits : visits { outdir := ["out"], dryRun := false } emptyOutput
      [emptyMapCall, emptyMapCall, emptyMapCall] = [⟨["out", "a.json"], emptyOutput⟩,
        ⟨["out", "a.json"], emptyMapOutput⟩, ⟨["out", "a.json"], emptyMapOutput⟩] := by
    show _ :: visits (emptyMapWriter 0) emptyMapOutput [emptyMapCall, emptyMapCall] = _
    rw [visits, prepare_emptyMapCall, make_emptyMapCall]
    dsimp only
    rw [visits, prepare_emptyMapCall, make_emptyMapCall]
    rfl
  obtain ⟨-, -, -, hsummary, -, hnew, -⟩ := finalize_counts (by decide) (by decide) hcreate hcalls
  rw [hvisits] at hnew
  exact ⟨_, _, _, by decide, by decide, hcreate, hcalls, hsummary, hnew⟩

end StyleGuide.Writer
