import StyleGuide.Output
import StyleGuide.Proofs.Files.Writing
import StyleGuide.Proofs.Outcomes
import StyleGuide.Proofs.Text.Utf8

/-!
# What one call of the writer does

A name is resolved to a place strictly below the output directory (`resolve_eq_ok`). What is done
there depends on what is there: nothing, a text, or something that is no text (`verdict_cases`). A
call that succeeds is told by its place, its text and its verdict (`make_eq_ok`).
-/

namespace StyleGuide.Writer

open FileTree

variable {w w' : Writer} {tree tree' : FileTree} {name : Json} {r : OutputRequest}
  {place : Location}

/-! ### Places -/

/-- A writer can be made for a directory that is there, or in a dry run. -/
theorem create_eq_ok_iff {cwd : Location} {outdir : Path} {dryRun : Bool} :
    create tree cwd outdir dryRun = .ok w ↔ '\x00' ∉ outdir.text.toList ∧
      (dryRun = true ∨ tree.isDirAt (outdir.normalize cwd) = .ok true) ∧
      w = { outdir := outdir.normalize cwd, dryRun } := by
  simp only [create]
  by_cases hnull : '\x00' ∈ outdir.text.toList
  · simp [hnull, throw, throwThe, MonadExceptOf.throw, bind, Except.bind]
  · rw [if_neg (by simpa using hnull)]
    cases dryRun with
    | true => simp [hnull, pure_eq_ok_iff]
    | false =>
      simp only [Bool.false_eq_true, if_false, false_or, bind_eq_ok_iff, mapError_eq_ok_iff]
      constructor
      · rintro ⟨there, hthere, h⟩
        cases there with
        | false => cases h
        | true => exact ⟨hnull, hthere, pure_eq_ok_iff.mp h⟩
      · rintro ⟨-, hthere, rfl⟩
        exact ⟨true, hthere, rfl⟩

/-- What a name stands for lies strictly below the output directory. -/
theorem resolve_eq_ok {outdir : Location} {s : String} (h : resolve outdir s = .ok place) :
    (Path.ofString s).isAbsolute = false ∧ place = (Path.ofString s).normalize outdir ∧
      outdir <+: place ∧ outdir ≠ place := by
  unfold resolve at h
  dsimp only at h
  split at h
  · cases h
  · next habsolute =>
    split at h
    · next hinside =>
      cases h
      obtain ⟨-, hprefixOf, hlt⟩ := hinside
      refine ⟨Bool.eq_false_iff.mpr habsolute, rfl, List.isPrefixOf_iff_prefix.mp hprefixOf, ?_⟩
      intro heq
      rw [← heq] at hlt
      omega
    · cases h

theorem ne_nil_of_resolve {outdir : Location} {s : String} (h : resolve outdir s = .ok place) :
    place ≠ [] := by
  obtain ⟨-, -, hprefixOf, hne⟩ := resolve_eq_ok h
  rintro rfl
  exact hne (List.prefix_nil.mp hprefixOf)

/-- A call that is not refused has a text, and a name that stands for a place. -/
theorem prepare_eq_ok {text : Option Text} (h : w.prepare name r = .ok (place, text)) :
    OutputRequest.text? r = .ok text ∧ ∃ s, name = .str s ∧ resolve w.outdir s = .ok place := by
  obtain ⟨text', htext, h⟩ := bind_eq_ok_iff.mp h
  obtain ⟨s, hs, h⟩ := bind_eq_ok_iff.mp h
  obtain ⟨place', hplace, h⟩ := bind_eq_ok_iff.mp h
  have hname : name = .str s := by
    cases name <;> cases hs
    rfl
  split at h
  · cases h
    exact ⟨htext, s, hname, hplace⟩
  · cases h

/-- The place of a call that is not refused has a plain name, below the root. -/
theorem isPlain_of_prepare {text : Option Text} (houtdir : IsPlain w.outdir)
    (h : w.prepare name r = .ok (place, text)) : place ≠ [] ∧ IsPlain place := by
  obtain ⟨-, s, -, hresolve⟩ := prepare_eq_ok h
  exact ⟨ne_nil_of_resolve hresolve, (resolve_eq_ok hresolve).2.1 ▸ houtdir.normalize _⟩

/-! ### Verdicts -/

/-- What a verdict goes by: the text that is there, something that is no text, or nothing. -/
theorem verdict_cases {text : Text} {action : Option Action} (htree : tree.Connected)
    (hplain : IsPlain place) (h : verdict tree place (some text) = .ok action) :
    tree.FreeAt place ∧
    ((∃ bytes old, tree.file? place = some bytes ∧ readText bytes = .ok old ∧
        action = if old = text then none else some .update) ∨
      (∃ bytes fault, tree.file? place = some bytes ∧ readText bytes = .error fault ∧
        action = some .create) ∨
      (tree.lookup? place = none ∧ action = some .create)) := by
  unfold verdict at h
  split at h
  · next bytes hread =>
    obtain ⟨hfile, hfree⟩ := freeAt_of_readAt hplain hread
    refine ⟨hfree, ?_⟩
    split at h
    · next old htext =>
      cases h
      exact .inl ⟨bytes, old, hfile, htext, by simp⟩
    · next fault htext =>
      cases h
      exact .inr (.inl ⟨bytes, fault, hfile, htext, rfl⟩)
  · next path hread =>
    cases h
    obtain ⟨hnone, hfree⟩ := htree.freeAt_of_missing hplain hread
    exact ⟨hfree, .inr (.inr ⟨hnone, rfl⟩)⟩
  · cases h

/-- A file that is left alone is one that has the text. -/
theorem exists_of_verdict_none {text : Option Text} (h : verdict tree place text = .ok none) :
    ∃ old, text = some old := by
  unfold verdict at h
  split at h
  · split at h
    · next old _ =>
      exact ⟨old, (by simpa using h : some old = text).symm⟩
    · cases h
  · cases h
  · cases h

/-- A verdict is given only on a place that the system can look at. -/
theorem textFault?_of_verdict {text : Option Text} {action : Option Action}
    (h : verdict tree place text = .ok action) : textFault? place.text = none := by
  cases hfault : textFault? place.text with
  | none => rfl
  | some fault =>
    unfold verdict readAt findAt at h
    rw [hfault] at h
    rcases textFault?_cases hfault with rfl | rfl <;> cases h

/-- A file that has the text is left alone. -/
theorem verdict_of_readAt {text : Text} (hread : tree.readAt place = .ok (Utf8.encode text))
    (h : '\r' ∉ text) :
    verdict tree place (some text) = .ok none := by
  rw [verdict, hread]
  dsimp only
  rw [readText_encode h]
  dsimp only
  rw [if_pos rfl]

/-! ### Calls -/

theorem note_eq : w.note place =
    { w with made := if place ∈ w.made then w.made else w.made ++ [place] } := by
  unfold note
  by_cases h : place ∈ w.made <;> simp [h]

/-- The account of a file says nothing else about the writer. -/
theorem kept_account (action : Option Action) :
    (w.account place action).made = w.made ∧ (w.account place action).outdir = w.outdir ∧
      (w.account place action).dryRun = w.dryRun ∧
      (w.account place action).finalized = w.finalized := by
  cases action <;> exact ⟨rfl, rfl, rfl, rfl⟩

/-- What a call comes to, step by step. -/
theorem make_cases {done : Except WriterFault Unit} (h : w.make tree name r = (done, w', tree')) :
    (∃ fault, w.prepare name r = .error fault ∧ done = .error fault ∧ w' = w ∧ tree' = tree) ∨
    ∃ place text, w.prepare name r = .ok (place, text) ∧
      ((∃ fault, verdict tree place text = .error fault ∧ done = .error (.file fault) ∧
          w' = w.note place ∧ tree' = tree) ∨
        ∃ action, verdict tree place text = .ok action ∧ w' = (w.note place).account place action ∧
          (done, tree') = if action.isSome && !w.dryRun then put tree place text
            else (.ok (), tree)) := by
  unfold make at h
  split at h
  · next fault hprepare =>
    cases h
    exact .inl ⟨fault, hprepare, rfl, rfl, rfl⟩
  · next place text hprepare =>
    refine .inr ⟨place, text, hprepare, ?_⟩
    dsimp only at h
    split at h
    · next fault hverdict =>
      cases h
      exact .inl ⟨fault, hverdict, rfl, rfl, rfl⟩
    · next action hverdict =>
      rw [show (w.note place).dryRun = w.dryRun by rw [note_eq]] at h
      cases h
      exact .inr ⟨action, hverdict, rfl, rfl⟩

/-- A text is put in a place whose names are not too long. -/
theorem put_eq_ok {text : Option Text} (h : put tree place text = (.ok (), tree')) :
    ∃ t, text = some t ∧ place.any isTooLong = false ∧
      tree' = tree.write place (Utf8.encode t) := by
  unfold put at h
  split at h
  · cases h
  · next hlong =>
    cases text with
    | none => cases h
    | some t =>
      cases h
      exact ⟨t, rfl, Bool.eq_false_iff.mpr hlong, rfl⟩

/-- What a call that succeeds does to the writer and to the files. -/
theorem make_eq_ok (hdry : w.dryRun = false) (h : w.make tree name r = (.ok (), w', tree')) :
    ∃ place text action, w.prepare name r = .ok (place, some text) ∧
      verdict tree place (some text) = .ok action ∧ w' = (w.note place).account place action ∧
      (tree' = if action.isSome then tree.write place (Utf8.encode text) else tree) ∧
      (action.isSome = true → place.any isTooLong = false) := by
  obtain ⟨_, _, hdone, _⟩ | ⟨place, text, hprepare, hcall⟩ := make_cases h
  · cases hdone
  · obtain ⟨_, _, hdone, _⟩ | ⟨action, hverdict, rfl, hput⟩ := hcall
    · cases hdone
    · rw [hdry] at hput
      cases action with
      | none =>
        obtain ⟨old, rfl⟩ := exists_of_verdict_none hverdict
        exact ⟨place, old, none, hprepare, hverdict, rfl, (Prod.mk.inj hput).2,
          fun h => absurd h (by decide)⟩
      | some action =>
        obtain ⟨t, rfl, hshort, rfl⟩ := put_eq_ok hput.symm
        exact ⟨place, t, some action, hprepare, hverdict, rfl, rfl, fun _ => hshort⟩

/-! ### Files -/

/-- A request for data is one for the text of a document. -/
theorem text?_data_eq_ok {data : Json} {text : Option Text}
    (h : OutputRequest.text? { data } = .ok text) :
    ∃ document, data.document = .ok document ∧ text = some (document ++ ['\n']) := by
  cases hdocument : data.document with
  | error fault =>
    simp [OutputRequest.text?, hdocument, Except.mapError, Except.map] at h
  | ok document =>
    simp only [OutputRequest.text?, hdocument, Except.mapError, Except.map, Except.ok.injEq] at h
    exact ⟨document, rfl, h.symm⟩

/-- A text is put in one place or, if that fails, nowhere. -/
theorem file?_put {text : Text} {done : Except WriterFault Unit} (hne : place ≠ [])
    (h : put tree place (some text) = (done, tree')) :
    (∀ l ≠ place, tree'.file? l = tree.file? l) ∧ (done ≠ .ok () → tree.SameFiles tree') := by
  unfold put at h
  split at h
  · cases h
    have hsame := sameFiles_makeParents tree (place.takeWhile (!isTooLong ·))
    exact ⟨fun l _ => hsame l, fun _ => hsame⟩
  · cases h
    refine ⟨?_, fun hfault => absurd rfl hfault⟩
    intro l hl
    rw [file?_write _ _ _ _ hne, if_neg hl]

/-- What a call for data does to the files: nothing if it fails or is dry, and at most one
change. -/
theorem file?_make {data : Json} {done : Except WriterFault Unit}
    (h : w.make tree name { data } = (done, w', tree')) :
    (w.dryRun = true ∨ done ≠ .ok () → tree.SameFiles tree') ∧
      (done = .ok () → ∃ s place, name = .str s ∧ resolve w.outdir s = .ok place ∧
        ∀ l ≠ place, tree'.file? l = tree.file? l) := by
  obtain ⟨fault, -, rfl, -, rfl⟩ | ⟨place, text, hprepare, hcall⟩ := make_cases h
  · exact ⟨fun _ => .refl _, fun hdone => absurd hdone (by simp)⟩
  · obtain ⟨htext, s, rfl, hresolve⟩ := prepare_eq_ok hprepare
    obtain ⟨document, -, rfl⟩ := text?_data_eq_ok htext
    obtain ⟨fault, -, rfl, -, rfl⟩ | ⟨action, -, -, hput⟩ := hcall
    · exact ⟨fun _ => .refl _, fun hdone => absurd hdone (by simp)⟩
    · split at hput
      · next hwrites =>
        obtain ⟨hother, hfault⟩ := file?_put (ne_nil_of_resolve hresolve) hput.symm
        refine ⟨?_, fun _ => ⟨s, place, rfl, hresolve, hother⟩⟩
        rintro (hdry | hdone)
        · simp [hdry] at hwrites
        · exact hfault hdone
      · cases hput
        exact ⟨fun _ => .refl _, fun _ => ⟨s, place, rfl, hresolve, fun _ _ => rfl⟩⟩

theorem finalized_make {done : Except WriterFault Unit}
    (h : w.make tree name r = (done, w', tree')) :
    w'.finalized = w.finalized := by
  obtain ⟨_, _, _, rfl, _⟩ | ⟨place, text, _, hcall⟩ := make_cases h
  · rfl
  · obtain ⟨_, _, _, rfl, _⟩ | ⟨action, _, rfl, _⟩ := hcall
    · rw [note_eq]
    · rw [(kept_account action).2.2.2, note_eq]

end StyleGuide.Writer
