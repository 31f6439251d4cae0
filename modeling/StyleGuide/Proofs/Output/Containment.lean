import StyleGuide.Proofs.Files.Sound
import StyleGuide.Proofs.Output.Sessions

/-!
# Staying below the output directory

A name leads from the output directory to a place, part by part (`Leads`). It is accepted if the
text of that place starts with the text of the directory and a slash (`resolve_eq`), and this means
that the place lies strictly below the directory (`resolve_eq_ok_iff`). So a name may leave the
directory on its way if it comes back. A call that succeeds works at that place alone: what comes of
it depends on what is read there, and no other file is changed (`make_confined`).
-/

namespace StyleGuide.Writer

open FileTree

/-! ### Where a name leads -/

/-- From a location the parts of a path lead to another one: empty parts and single points stay,
parent parts go up, as far as to the root, and all others go down. -/
inductive Leads : Location → List String → Location → Prop
  | nil {l : Location} : Leads l [] l
  | stay {l m : Location} {part : String} {parts : List String} : part = "" ∨ part = "." →
      Leads l parts m → Leads l (part :: parts) m
  | up {l m : Location} {parts : List String} : Leads l.dropLast parts m → Leads l (".." :: parts) m
  | down {l m : Location} {part : String} {parts : List String} : part ≠ "" → part ≠ "." →
      part ≠ ".." → Leads (l ++ [part]) parts m → Leads l (part :: parts) m

theorem leads_cons_iff {l m : Location} {part : String} {parts : List String} :
    Leads l (part :: parts) m ↔ Leads (Path.stepLexically l part) parts m := by
  unfold Path.stepLexically
  constructor
  · intro h
    cases h with
    | stay hpart h =>
      rw [if_neg (by rcases hpart with rfl | rfl <;> decide), if_pos hpart]
      exact h
    | up h =>
      rw [if_pos rfl]
      exact h
    | down hempty hpoint hparent h =>
      rw [if_neg hparent, if_neg (by simp [hempty, hpoint])]
      exact h
  · intro h
    split at h
    · next hparent =>
      rw [hparent]
      exact .up h
    · next hparent =>
      split at h
      · next hpart => exact .stay hpart h
      · next hpart =>
        obtain ⟨hempty, hpoint⟩ := not_or.mp hpart
        exact .down hempty hpoint hparent h

/-- The parts of a path lead to one location only, the one that they are applied to one by one. -/
theorem leads_iff {l m : Location} {parts : List String} :
    Leads l parts m ↔ m = parts.foldl Path.stepLexically l := by
  induction parts generalizing l with
  | nil =>
    constructor
    · intro h
      cases h
      rfl
    · rintro rfl
      exact .nil
  | cons part parts ih => rw [leads_cons_iff, ih, List.foldl_cons]

/-- Parts that mean nothing can be left out. -/
theorem foldl_stepLexically_meaningful (l : Location) (parts : List String) :
    (Path.meaningful parts).foldl Path.stepLexically l = parts.foldl Path.stepLexically l := by
  induction parts generalizing l with
  | nil => rfl
  | cons part parts ih =>
    rw [List.foldl_cons, ← ih, Path.meaningful, List.filter_cons]
    split
    · rfl
    · next hpart =>
      have hstay : Path.stepLexically l part = l := by
        rw [decide_eq_true_eq, not_and_or, not_not, not_not] at hpart
        rcases hpart with rfl | rfl <;> rfl
      rw [hstay]
      rfl

/-- The pieces of a relative name lead to the place that it stands for. -/
theorem leads_pieces_iff {outdir place : Location} {name : String}
    (hname : name.toList.head? ≠ some '/') :
    Leads outdir (Path.pieces name) place ↔ place = (Path.ofString name).normalize outdir := by
  have hrelative : ¬(Path.ofString name).isAbsolute = true :=
    mt Path.isAbsolute_ofString_iff.mp hname
  rw [leads_iff, ← foldl_stepLexically_meaningful, Path.normalize, Path.start, if_neg hrelative]
  rfl

/-- For a named directory the names are tested as their texts are: what a name stands for has to
start with the text of the directory and a slash. -/
theorem resolve_eq {outdir : Location} (houtdir : IsNamed outdir) (name : String) :
    resolve outdir name =
      if (Path.ofString name).isAbsolute then .error (.absolute name)
      else
        let place := (Path.ofString name).normalize outdir
        if (outdir.text ++ "/").toList.isPrefixOf place.text.toList then .ok place
        else .error (.escapes place.text) := by
  unfold resolve
  dsimp only
  generalize hplace : (Path.ofString name).normalize outdir = place
  have hnamed : IsNamed place := hplace ▸ houtdir.normalize (isWritten_ofString name)
  have htest : outdir ≠ [] ∧ outdir.isPrefixOf place ∧ outdir.length < place.length ↔
      (outdir.text ++ "/").toList.isPrefixOf place.text.toList := by
    rw [List.isPrefixOf_iff_prefix, List.isPrefixOf_iff_prefix, prefix_text_iff houtdir hnamed]
    refine and_congr_right fun _ => and_congr_right fun hbelow => ?_
    constructor
    · rintro hlt rfl
      exact Nat.lt_irrefl _ hlt
    · exact fun hne => Nat.lt_of_le_of_ne hbelow.length_le (mt hbelow.eq_of_length hne)
  simp only [htest]

/-- A relative name is accepted exactly if it leads to a place strictly below the output
directory. -/
theorem resolve_eq_ok_iff {outdir place : Location} {name : String} (houtdir : IsNamed outdir)
    (hroot : outdir ≠ []) (hname : name.toList.head? ≠ some '/') :
    resolve outdir name = .ok place ↔
      Leads outdir (Path.pieces name) place ∧ outdir <+: place ∧ outdir ≠ place := by
  have hnamed := houtdir.normalize (isWritten_ofString name)
  rw [leads_pieces_iff hname, resolve_eq houtdir, if_neg (mt Path.isAbsolute_ofString_iff.mp hname)]
  dsimp only
  constructor
  · intro h
    split at h
    · next htest =>
      cases h
      exact ⟨rfl, ((prefix_text_iff houtdir hnamed).mp (List.isPrefixOf_iff_prefix.mp htest)).2⟩
    · cases h
  · rintro ⟨rfl, hbelow⟩
    have htest := (prefix_text_iff houtdir hnamed).mpr ⟨hroot, hbelow⟩
    rw [if_pos (List.isPrefixOf_iff_prefix.mpr htest)]

/-! ### What a call works on -/

variable {w w' : Writer} {tree tree' : FileTree} {name : String} {r : OutputRequest}
  {place : Location}

/-- A place for output: strictly below the directory, by names alone, and for a JSON file. The parts
of its text are the names, behind the slash of the root. -/
structure IsOutputPlace (outdir place : Location) : Prop where
  below : outdir <+: place
  strict : outdir ≠ place
  plain : ∀ part ∈ place, part ≠ "" ∧ part ≠ "." ∧ part ≠ ".."
  pieces : Path.pieces place.text = "" :: place
  json : ['.', 'j', 's', 'o', 'n'] <:+ place.text.toList

/-- A call that is not refused has a place for output. -/
theorem isOutputPlace_of_prepare (houtdir : IsNamed w.outdir) {text : Option Text}
    (h : w.prepare (.str name) r = .ok (place, text)) :
    resolve w.outdir name = .ok place ∧ IsOutputPlace w.outdir place := by
  obtain ⟨-, s, hs, hresolve⟩ := prepare_eq_ok h
  obtain rfl := Json.str.inj hs
  have hjson : isPossibleOutput place.text = true := by
    obtain ⟨_, -, h⟩ := bind_eq_ok_iff.mp h
    obtain ⟨_, -, h⟩ := bind_eq_ok_iff.mp h
    obtain ⟨_, -, h⟩ := bind_eq_ok_iff.mp h
    split at h
    · next hjson =>
      cases h
      exact hjson
    · cases h
  obtain ⟨-, hplace, hbelow, hne⟩ := resolve_eq_ok hresolve
  have hnamed : IsNamed place := hplace ▸ houtdir.normalize (isWritten_ofString name)
  refine ⟨hresolve, hbelow, hne, hnamed.1, ?_, List.isSuffixOf_iff_suffix.mp hjson⟩
  exact pieces_text hnamed (ne_nil_of_resolve hresolve)

/-- Whether a text can be put in a place does not depend on the files. -/
theorem put_fst_eq (tree₁ tree₂ : FileTree) (place : Location) (text : Option Text) :
    (put tree₁ place text).1 = (put tree₂ place text).1 := by
  unfold put
  split
  · rfl
  · cases text <;> rfl

/-- What comes of a call depends only on what is read at its place. -/
theorem make_congr {text : Option Text} (hprepare : w.prepare (.str name) r = .ok (place, text))
    {tree₂ : FileTree} (hread : tree₂.readAt place = tree.readAt place) :
    (w.make tree₂ (.str name) r).1 = (w.make tree (.str name) r).1 ∧
      (w.make tree₂ (.str name) r).2.1 = (w.make tree (.str name) r).2.1 := by
  have hverdict : verdict tree₂ place text = verdict tree place text := by
    rw [verdict, verdict, hread]
  simp only [make, hprepare, hverdict]
  cases verdict tree place text with
  | error fault => exact ⟨rfl, rfl⟩
  | ok action =>
    dsimp only
    split
    · exact ⟨put_fst_eq tree₂ tree place text, rfl⟩
    · exact ⟨rfl, rfl⟩

/-- A call that succeeds leaves the files or writes one. -/
theorem tree_of_make {text : Option Text} (hprepare : w.prepare (.str name) r = .ok (place, text))
    (h : w.make tree (.str name) r = (.ok (), w', tree')) :
    place ∈ w'.made ∧ (tree' = tree ∨ ∃ bytes, tree' = tree.write place bytes) := by
  obtain ⟨_, _, hdone, _⟩ | ⟨place', text', hprepare', hcall⟩ := make_cases h
  · cases hdone
  · obtain ⟨rfl, rfl⟩ := Prod.mk.inj (Except.ok.inj (hprepare.symm.trans hprepare'))
    obtain ⟨_, _, hdone, _⟩ | ⟨action, -, rfl, hput⟩ := hcall
    · cases hdone
    · have hmade : place ∈ (w.note place).made := by
        rw [note_eq]
        by_cases hold : place ∈ w.made <;> simp [hold]
      refine ⟨by rw [(kept_account action).1]; exact hmade, ?_⟩
      split at hput
      · obtain ⟨t, -, -, rfl⟩ := put_eq_ok hput.symm
        exact .inr ⟨_, rfl⟩
      · exact .inl (Prod.mk.inj hput).2

/-- **Output stays below its directory.** A call that succeeds works at one place, strictly below
the output directory and told by names alone: nothing else is read, no other file is changed, and
nothing is made but the way to it. And a relative name is accepted exactly if its parts lead to a
place strictly below the directory, unless that is the root. -/
theorem make_confined (w : Writer) (houtdir : IsNamed w.outdir) (name : String) :
    (∀ (r : OutputRequest) (tree : FileTree) (w' : Writer) (tree' : FileTree),
      w.make tree (.str name) r = (.ok (), w', tree') →
      ∃ place, resolve w.outdir name = .ok place ∧ IsOutputPlace w.outdir place ∧ place ∈ w'.made ∧
        (∀ tree₂ : FileTree, tree₂.readAt place = tree.readAt place →
          ∃ tree₂', w.make tree₂ (.str name) r = (.ok (), w', tree₂')) ∧
        (∀ l, l ≠ place → tree'.file? l = tree.file? l) ∧
        ∀ l, ¬l <+: place → tree'.lookup? l = tree.lookup? l) ∧
    (w.outdir ≠ [] → name.toList.head? ≠ some '/' → ∀ place, resolve w.outdir name = .ok place ↔
      Leads w.outdir (Path.pieces name) place ∧ w.outdir <+: place ∧ w.outdir ≠ place) := by
  refine ⟨?_, fun hroot hname place => resolve_eq_ok_iff houtdir hroot hname⟩
  intro r tree w' tree' h
  obtain ⟨_, _, hdone, _⟩ | ⟨place, text, hprepare, -⟩ := make_cases h
  · cases hdone
  obtain ⟨hresolve, hplace⟩ := isOutputPlace_of_prepare houtdir hprepare
  have hne := ne_nil_of_resolve hresolve
  obtain ⟨hmade, htree⟩ := tree_of_make hprepare h
  refine ⟨place, hresolve, hplace, hmade, ?_, ?_, ?_⟩
  · intro tree₂ hread
    obtain ⟨hdone, hwriter⟩ := make_congr hprepare hread
    rw [h] at hdone hwriter
    exact ⟨(w.make tree₂ (.str name) r).2.2, Prod.ext hdone (Prod.ext hwriter rfl)⟩
  · intro l hl
    rcases htree with rfl | ⟨bytes, rfl⟩
    · rfl
    · rw [file?_write _ _ _ _ hne, if_neg hl]
  · intro l hl
    rcases htree with rfl | ⟨bytes, rfl⟩
    · rfl
    -- Writing makes the file and the directories above it, all on the way to the place.
    · have hself : l ≠ place := fun heq => hl (heq ▸ List.prefix_rfl)
      have hparent : ¬l <+: place.dropLast :=
        fun hbelow => hl (hbelow.trans (List.dropLast_prefix place))
      rw [lookup?_write _ _ _ _ hne, if_neg hself, if_neg hparent, Option.or_none]

/-- A name that leaves the directory on its way and comes back. -/
theorem make_confined_detour :
    let name := "../out/./sub//../a.json"
    IsNamed outputWriter.outdir ∧ outputWriter.outdir ≠ [] ∧ name.toList.head? ≠ some '/' ∧
      outputWriter.make emptyOutput (.str name) { data := .obj [] } =
        (.ok (), emptyMapWriter 0, emptyMapOutput) ∧
      Leads ["out"] (Path.pieces name) ["out", "a.json"] ∧
      ∃ place, resolve ["out"] name = .ok place ∧ IsOutputPlace ["out"] place ∧
        place ∈ (emptyMapWriter 0).made ∧
        (∀ tree₂ : FileTree, tree₂.readAt place = emptyOutput.readAt place →
          ∃ tree₂', outputWriter.make tree₂ (.str name) { data := .obj [] } =
            (.ok (), emptyMapWriter 0, tree₂')) ∧
        (∀ l, l ≠ place → emptyMapOutput.file? l = emptyOutput.file? l) ∧
        ∀ l, ¬l <+: place → emptyMapOutput.lookup? l = emptyOutput.lookup? l := by
  intro name
  have hnamed : IsNamed outputWriter.outdir := by decide
  have hroot : outputWriter.outdir ≠ [] := by decide
  have hname : name.toList.head? ≠ some '/' := by decide +kernel
  have hresolve : resolve outputWriter.outdir name = .ok ["out", "a.json"] :=
    eq_ok_of_toOption (by decide +kernel)
  have hprepare : outputWriter.prepare (.str name) { data := .obj [] } =
      .ok (["out", "a.json"], some ['\x7b', '\x7d', '\n']) :=
    eq_ok_of_toOption (by decide +kernel)
  have hmake : outputWriter.make emptyOutput (.str name) { data := .obj [] } =
      (.ok (), emptyMapWriter 0, emptyMapOutput) := by
    rw [make, hprepare]
    rfl
  obtain ⟨hconfined, hleads⟩ := make_confined outputWriter hnamed name
  exact ⟨hnamed, hroot, hname, hmake, ((hleads hroot hname _).mp hresolve).1,
    hconfined _ _ _ _ hmake⟩

end StyleGuide.Writer
