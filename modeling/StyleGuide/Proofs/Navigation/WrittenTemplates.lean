import StyleGuide.Proofs.Build.Repeatable
import StyleGuide.Proofs.Json.ReadBack
import StyleGuide.Proofs.Output.Sessions

/-!
# Written templates read back

After a call that succeeds, the file that was asked for has the text that was asked for, whether it
was written now or was there before (`readText_of_make`). That text is the document of a template,
which is read back as it was, down to the order of its fields. So a template that is written can be
loaded again, by any path that leads to it (`load_make`).
-/

namespace StyleGuide

open FileTree

variable {t tree tree' : FileTree} {cwd home l place : Location} {bytes : List UInt8} {text : Text}
  {w w' : Writer} {name v : Json}

/-! ### The file that was written -/

/-- Nothing has to be done only if the file has the text. -/
theorem Writer.readAt_of_verdict (h : verdict tree place (some text) = .ok none) :
    ∃ bytes, tree.readAt place = .ok bytes ∧ readText bytes = .ok text := by
  unfold verdict at h
  split at h
  · next bytes hread =>
    split at h
    · next old hold =>
      have hsame : some old = some text := by simpa using h
      cases hsame
      exact ⟨bytes, hread, hold⟩
    · cases h
  · cases h
  · cases h

/-- After a call that succeeds, the file has the text that is asked for. -/
theorem Writer.readText_of_make (hdry : w.dryRun = false) (hplain : FileTree.IsPlain w.outdir)
    (htree : tree.Connected) (h : w.make tree name { data := v } = (.ok (), w', tree')) :
    ∃ place text bytes, w.prepare name { data := v } = .ok (place, some text) ∧
      tree'.readAt place = .ok bytes ∧ readText bytes = .ok text := by
  obtain ⟨place, text, action, hprepare, hverdict, -, htree', hshort⟩ := make_eq_ok hdry h
  obtain ⟨hne, hplace⟩ := isPlain_of_prepare hplain hprepare
  cases action with
  | none =>
    obtain ⟨bytes, hread⟩ := readAt_of_verdict hverdict
    exact ⟨place, text, bytes, hprepare, htree' ▸ hread⟩
  | some action =>
    have hfile : (tree.write place (Utf8.encode text)).file? place = some (Utf8.encode text) :=
      (file?_write _ _ _ _ hne).trans (if_pos rfl)
    have hconnected := htree.write hne (verdict_cases htree hplace hverdict).1 (Utf8.encode text)
    refine ⟨place, text, Utf8.encode text, hprepare, ?_,
      (readText_written (prepare_eq_ok hprepare).1).2⟩
    rw [htree']
    exact hconnected.readAt_eq_ok hplace hfile (textFault?_of_verdict hverdict) (hshort rfl)

/-! ### Ways to a file -/

/-- The path of a named place leads there from anywhere. -/
theorem find_ofLocation (hl : IsNamed l) (t : FileTree) (cwd : Location) :
    t.find cwd (Path.ofLocation l).text = t.findAt l := by
  have hwritten : IsWritten (.ofLocation l) := fun part hpart =>
    ⟨(hl.1 part hpart).1, (hl.1 part hpart).2.1, hl.2 part hpart⟩
  have hstart : t.lookup? ((Path.ofLocation l).start cwd) = some .dir := lookup?_nil t
  rw [find_text hwritten hstart, findAt]
  show (textFault? l.text).elim (t.findFrom [] l) .error = _
  cases textFault? l.text <;> rfl

theorem findAt_of_readAt (hplain : FileTree.IsPlain l) (h : t.readAt l = .ok bytes) :
    t.findAt l = .ok (l, .file bytes) := by
  obtain ⟨m, hm⟩ : ∃ m, t.findAt l = .ok (m, .file bytes) := by
    unfold readAt at h
    cases hfind : t.findAt l with
    | error fault =>
      rw [hfind] at h
      cases fault <;> cases h
    | ok found =>
      obtain ⟨m, n⟩ := found
      rw [hfind] at h
      cases n <;> cases h
      exact ⟨m, rfl⟩
  have hfrom : t.findFrom [] l = .ok (m, .file bytes) := by
    unfold findAt at hm
    split at hm
    · cases hm
    · exact hm
  have hdown : ".." ∉ l := fun hmem => (hplain _ hmem).2.2 rfl
  have hmeaningful : Path.meaningful l = l :=
    List.filter_eq_self.mpr fun part hpart => by simp [hplain part hpart]
  have hsame := walk_eq_ok hdown (findFrom_eq_ok hfrom).1
  rw [List.nil_append, hmeaningful] at hsame
  rw [hm, hsame]

/-- What is found by a path is what is at the place to which it leads. -/
theorem eq_file_of_find {path : String} {n : Node} (hfile : t.file? l = some bytes)
    (h : t.find cwd path = .ok (l, n)) : n = .file bytes := by
  obtain ⟨-, -, hfind⟩ := find_eq_ok h
  have hlookup := (findFrom_eq_ok hfind).2
  rw [file?_eq_some_iff.mp hfile] at hlookup
  cases hlookup
  rfl

namespace Navigation

/-- A file is loaded if it can be found, read, parsed and checked. -/
theorem load_of_find {p : Path} (hfind : tree.find cwd p.text = .ok (l, .file bytes))
    (hread : readText bytes = .ok text) (hparse : Json.parse text = .ok v)
    (hcheck : check v = .ok v) :
    load ⟨tree, cwd, home⟩ p = .ok v := by
  have hthere : (⟨tree, cwd, home⟩ : Workspace).checkFile p = .ok true := by
    rw [Workspace.checkFile, FileTree.isFile, hfind]
    rfl
  have hbytes : (⟨tree, cwd, home⟩ : Workspace).read p = .ok bytes := by
    rw [Workspace.read, FileTree.read, hfind]
    rfl
  refine bind_eq_ok_iff.mpr ⟨true, mapError_eq_ok_iff.mpr hthere, ?_⟩
  refine bind_eq_ok_iff.mpr ⟨bytes, mapError_eq_ok_iff.mpr hbytes, ?_⟩
  refine bind_eq_ok_iff.mpr ⟨text, mapError_eq_ok_iff.mpr hread, ?_⟩
  exact bind_eq_ok_iff.mpr ⟨v, mapError_eq_ok_iff.mpr hparse, mapError_eq_ok_iff.mpr hcheck⟩

/-- **A written template can be loaded.** After a call with a template has succeeded, the file is
read as the same template, by its full path and by any other path that leads to it. -/
theorem load_make (hdry : w.dryRun = false) (houtdir : IsNamed w.outdir) (htree : tree.Connected)
    (hv : v.Legible) (hcheck : check v = .ok v)
    (h : w.make tree name { data := v } = (.ok (), w', tree')) :
    ∃ place text, w.prepare name { data := v } = .ok (place, some text) ∧ ∀ cwd home,
      load ⟨tree', cwd, home⟩ (.ofLocation place) = .ok v ∧
      ∀ p n, tree'.find cwd p.text = .ok (place, n) → load ⟨tree', cwd, home⟩ p = .ok v := by
  obtain ⟨place, text, bytes, hprepare, hread, htext⟩ :=
    Writer.readText_of_make hdry houtdir.1 htree h
  obtain ⟨hdata, s, -, hresolve⟩ := Writer.prepare_eq_ok hprepare
  obtain ⟨document, hdocument, hsome⟩ := Writer.text?_data_eq_ok hdata
  cases hsome
  have hplace : IsNamed place :=
    (Writer.resolve_eq_ok hresolve).2.1 ▸ houtdir.normalize (isWritten_ofString s)
  have hparse := Json.parse_document hv hdocument
  refine ⟨place, _, hprepare, ?_⟩
  intro cwd home
  constructor
  · have hfind := (find_ofLocation hplace tree' cwd).trans (findAt_of_readAt hplace.1 hread)
    exact load_of_find hfind htext hparse hcheck
  · intro p n hfind
    obtain rfl := eq_file_of_find (freeAt_of_readAt hplace.1 hread).1 hfind
    exact load_of_find hfind htext hparse hcheck

/-- A template with one child, and with characters that a document escapes. -/
def buttonTemplate : Json :=
  .obj [("components", .obj [("name", .str "\"Parts\"\r\n\x01\\é"), ("children", .arr [
    .obj [("component", .str "button"), ("order", .int (-12)), ("core", .bool true),
      ("note", .null), ("sections", .arr [])]])])]

theorem legible_buttonTemplate : buttonTemplate.Legible := by
  have hchild : Json.Legible
      (.obj [("component", .str "button"), ("order", .int (-12)), ("core", .bool true),
        ("note", .null), ("sections", .arr [])]) := by
    refine .obj (by simp [Fields.Distinct, Fields.keys]) (by simp) ?_
    simp only [List.forall_mem_cons]
    exact ⟨.str _, .int (by decide), .bool true, .null, .arr (by simp), by simp⟩
  refine .obj (by simp [Fields.Distinct, Fields.keys]) (by simp) ?_
  simp only [List.forall_mem_cons]
  refine ⟨.obj (by simp [Fields.Distinct, Fields.keys]) (by simp) ?_, by simp⟩
  simp only [List.forall_mem_cons]
  exact ⟨.str _, .arr (by simpa using hchild), by simp⟩

/-- The template is written to an empty directory, and loaded from there by its name alone. -/
theorem load_make_button :
    Writer.outputWriter.dryRun = false ∧ IsNamed Writer.outputWriter.outdir ∧
      Writer.emptyOutput.Connected ∧
      buttonTemplate.Legible ∧ check buttonTemplate = .ok buttonTemplate ∧
      ∃ w' tree', Writer.outputWriter.make Writer.emptyOutput (.str "nav.json")
        { data := buttonTemplate } = (.ok (), w', tree') ∧
        load ⟨tree', ["out"], []⟩ (.ofString "nav.json") = .ok buttonTemplate := by
  have hmake :
      Writer.outputWriter.make Writer.emptyOutput (.str "nav.json") { data := buttonTemplate } =
        (.ok (), (Writer.outputWriter.make Writer.emptyOutput (.str "nav.json")
          { data := buttonTemplate }).2) :=
    Prod.ext rfl rfl
  have hcheck : check buttonTemplate = .ok buttonTemplate := rfl
  obtain ⟨place, text, hprepare, hload⟩ :=
    load_make rfl (by decide) (by decide) legible_buttonTemplate hcheck hmake
  refine ⟨rfl, by decide, by decide, legible_buttonTemplate, hcheck, _, _, hmake, ?_⟩
  obtain rfl : place = ["out", "nav.json"] := by
    have hplace := congrArg (Except.map Prod.fst) hprepare
    exact (Except.ok.inj hplace).symm
  exact (hload ["out"] []).2 _ _ rfl

end Navigation

end StyleGuide
