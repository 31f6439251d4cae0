import StyleGuide.Proofs.Output.Sessions

/-!
# What a file holds after it was made

A call that succeeds leaves the bytes of its text behind, with one exception. A file that is there
is read with every line end as a newline, and is left alone if that gives the text. So a file that
has carriage returns where the text has newlines keeps them (`OtherLineEnds`), and these are the
only files that do not get the bytes they were asked to hold (`make_delivers`).
-/

namespace StyleGuide.Writer

open FileTree

variable {w w' : Writer} {tree tree' : FileTree} {name : Json} {r : OutputRequest}
  {place : Location} {text : Text}

/-! ### Requests -/

/-- The text that a request asks for: its contents, or its data as a document that ends with a
newline. -/
inductive Asks : OutputRequest → Text → Prop
  | contents (s : String) : Asks { contents := .str s } s.toList
  | data {data : Json} {document : Text} : data.document = .ok document →
      Asks { data } (document ++ ['\n'])

theorem asks_of_text? (h : OutputRequest.text? r = .ok (some text)) : Asks r text := by
  obtain ⟨contents, data⟩ := r
  cases contents with
  | null =>
    obtain ⟨document, hdocument, htext⟩ := text?_data_eq_ok h
    cases htext
    exact .data hdocument
  | str s =>
    cases data <;> cases h
    exact .contents s
  | _ => cases data <;> cases h

/-! ### Files that are left alone -/

/-- The file at the place has the text but for its line ends, some of which have a carriage
return. -/
def OtherLineEnds (tree : FileTree) (place : Location) (text : Text) : Prop :=
  ∃ old, tree.readAt place = .ok (Utf8.encode old) ∧ '\r' ∈ old ∧ old.unifyNewlines = text

/-- A file is left alone if it has the text, with these line ends or others. -/
theorem verdict_eq_none_iff : verdict tree place (some text) = .ok none ↔
    (tree.readAt place = .ok (Utf8.encode text) ∧ '\r' ∉ text) ∨ OtherLineEnds tree place text := by
  constructor
  · intro h
    unfold verdict at h
    split at h
    · next bytes hread =>
      split at h
      · next found hfound =>
        obtain rfl : found = text := by simpa using h
        obtain ⟨old, rfl, hold⟩ := readText_eq_ok_iff.mp hfound
        -- Line ends are unified on reading, so a file with others can have the text as well.
        by_cases hreturn : '\r' ∈ old
        · exact .inr ⟨old, hread, hreturn, hold⟩
        · rw [Text.unifyNewlines_of_notMem hreturn] at hold
          exact .inl (hold ▸ ⟨hread, hreturn⟩)
      · cases h
    · cases h
    · cases h
  · rintro (⟨hread, hreturn⟩ | ⟨old, hread, -, rfl⟩)
    · exact verdict_of_readAt hread hreturn
    · unfold verdict
      rw [hread]
      dsimp only
      rw [readText_encode_eq]
      dsimp only
      rw [if_pos rfl]

/-- With other line ends, a file does not have the bytes of the text. -/
theorem OtherLineEnds.file?_ne (hplain : IsPlain place) (h : OtherLineEnds tree place text) :
    tree.file? place ≠ some (Utf8.encode text) := by
  obtain ⟨old, hread, hreturn, rfl⟩ := h
  obtain ⟨hfile, -⟩ := freeAt_of_readAt hplain hread
  rw [hfile]
  intro heq
  have hdecode := Utf8.decode_encode old
  rw [Option.some.inj heq, Utf8.decode_encode] at hdecode
  apply Text.notMem_unifyNewlines old
  rw [Except.ok.inj hdecode]
  exact hreturn

/-- What is at the place after a call that had the verdict. -/
theorem file?_of_verdict {action : Option Action} (hplain : IsPlain place) (hne : place ≠ [])
    (hverdict : verdict tree place (some text) = .ok action)
    (htree : tree' = if action.isSome then tree.write place (Utf8.encode text) else tree) :
    (tree'.file? place = some (Utf8.encode text) ↔ ¬OtherLineEnds tree place text) ∧
      (OtherLineEnds tree place text → tree' = tree) ∧ ∀ l, l ≠ place →
        tree'.file? l = tree.file? l := by
  cases action with
  | none =>
    obtain rfl : tree' = tree := htree
    refine ⟨?_, fun _ => rfl, fun _ _ => rfl⟩
    rcases verdict_eq_none_iff.mp hverdict with ⟨hread, hreturn⟩ | hother
    · obtain ⟨hfile, -⟩ := freeAt_of_readAt hplain hread
      constructor
      · intro _ hother
        exact hother.file?_ne hplain hfile
      · exact fun _ => hfile
    · constructor
      · exact fun hfile => absurd hfile (hother.file?_ne hplain)
      · exact fun hnot => absurd hother hnot
  | some action =>
    have hnot : ¬OtherLineEnds tree place text := by
      intro hother
      rw [verdict_eq_none_iff.mpr (.inr hother)] at hverdict
      cases hverdict
    obtain rfl : tree' = tree.write place (Utf8.encode text) := htree
    refine ⟨?_, fun hother => absurd hother hnot, ?_⟩
    · rw [file?_write _ _ _ _ hne, if_pos rfl]
      exact ⟨fun _ => hnot, fun _ => rfl⟩
    · intro l hl
      rw [file?_write _ _ _ _ hne, if_neg hl]

/-! ### Calls -/

/-- The file that a call has made is read as its text, whatever the line ends. -/
theorem readText_of_file? (hplain : IsPlain place)
    (hdelivered : ¬OtherLineEnds tree place text → tree'.file? place = some (Utf8.encode text))
    (hkept : OtherLineEnds tree place text → tree' = tree) :
    ∃ bytes, tree'.file? place = some bytes ∧ readText bytes = .ok text.unifyNewlines := by
  by_cases hother : OtherLineEnds tree place text
  · obtain rfl := hkept hother
    obtain ⟨old, hread, -, rfl⟩ := hother
    refine ⟨_, (freeAt_of_readAt hplain hread).1, ?_⟩
    rw [readText_encode_eq, Text.unifyNewlines_of_notMem (Text.notMem_unifyNewlines old)]
  · exact ⟨_, hdelivered hother, readText_encode_eq text⟩

/-- **A call delivers its text.** After a call that succeeds the file holds the bytes of the text
that was asked for, unless it had that text with other line ends before: exactly then it is left as
it was. It is read as the text in any case, and every other file is unchanged. -/
theorem make_delivers (hdry : w.dryRun = false) (houtdir : IsPlain w.outdir)
    (h : w.make tree name r = (.ok (), w', tree')) :
    ∃ s place text, name = .str s ∧ resolve w.outdir s = .ok place ∧ Asks r text ∧
      (tree'.file? place = some (Utf8.encode text) ↔ ¬OtherLineEnds tree place text) ∧
      (OtherLineEnds tree place text → tree' = tree) ∧
      (∃ bytes, tree'.file? place = some bytes ∧ readText bytes = .ok text.unifyNewlines) ∧
      ∀ l, l ≠ place → tree'.file? l = tree.file? l := by
  obtain ⟨place, text, action, hprepare, hverdict, -, htree, -⟩ := make_eq_ok hdry h
  obtain ⟨htext, s, hname, hresolve⟩ := prepare_eq_ok hprepare
  obtain ⟨hne, hplain⟩ := isPlain_of_prepare houtdir hprepare
  obtain ⟨hdelivered, hkept, hothers⟩ := file?_of_verdict hplain hne hverdict htree
  exact ⟨s, place, text, hname, hresolve, asks_of_text? htext, hdelivered, hkept,
    readText_of_file? hplain hdelivered.mpr hkept, hothers⟩

/-- The output directory with an empty map that ends with a carriage return and a newline. -/
def returnOutput : FileTree := emptyOutput.write ["out", "a.json"] [123, 125, 13, 10]

/-- A file with other line ends is not written, and does not hold the bytes that were asked for. -/
theorem make_delivers_carriage_return :
    let place := ["out", "a.json"]
    let text := ['\x7b', '\x7d', '\n']
    outputWriter.dryRun = false ∧ IsPlain outputWriter.outdir ∧
      outputWriter.make returnOutput (.str "a.json") { data := .obj [] } =
        (.ok (), { outputWriter with made := [place], same := 1 }, returnOutput) ∧
      resolve outputWriter.outdir "a.json" = .ok place ∧ Asks { data := .obj [] } text ∧
      returnOutput.file? place = some [123, 125, 13, 10] ∧ OtherLineEnds returnOutput place text ∧
      returnOutput.file? place ≠ some (Utf8.encode text) := by
  intro place text
  have hread : returnOutput.readAt place = .ok (Utf8.encode ['\x7b', '\x7d', '\r', '\n']) :=
    eq_ok_of_toOption (by decide +kernel)
  have hother : OtherLineEnds returnOutput place text := ⟨_, hread, by decide, by decide⟩
  have hprepare : outputWriter.prepare (.str "a.json") { data := .obj [] } =
      .ok (place, some text) := rfl
  have hmake : outputWriter.make returnOutput (.str "a.json") { data := .obj [] } =
      (.ok (), { outputWriter with made := [place], same := 1 }, returnOutput) := by
    rw [make, hprepare]
    dsimp only
    rw [verdict_eq_none_iff.mpr (.inr hother)]
    rfl
  obtain ⟨s, place', text', hname, hresolve, hasks, hdelivered, -, -, -⟩ :=
    make_delivers rfl (by decide) hmake
  obtain rfl := Json.str.inj hname
  obtain rfl : place = place' := Except.ok.inj hresolve
  obtain rfl : text' = text := by
    cases hasks with
    | data hdocument =>
      rw [← Except.ok.inj hdocument]
      rfl
  exact ⟨rfl, by decide, hmake, hresolve, hasks, rfl, hother,
    fun hfile => hdelivered.mp hfile hother⟩

end StyleGuide.Writer
