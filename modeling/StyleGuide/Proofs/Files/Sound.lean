import StyleGuide.Proofs.Files.Walking

/-!
# Sound file trees

In a sound tree every place is told once, everything is inside of a directory, and names are names.
What is listed in a directory is then what can be looked up there (`mem_list_iff`,
`mem_listBelow_iff`). Writing to a free place keeps a tree sound (`Sound.write`).
-/

namespace StyleGuide.FileTree

variable {t : FileTree} {l m : Location} {n : Node}

/-! ### Places told once -/

def Distinct (t : FileTree) : Prop := t.entries.Pairwise fun a b => a.1 ≠ b.1

instance (t : FileTree) : Decidable t.Distinct := inferInstanceAs (Decidable (List.Pairwise _ _))

theorem find?_of_pairwise {es : List (Location × Node)} (hes : es.Pairwise fun a b => a.1 ≠ b.1)
    (hmem : (l, n) ∈ es) : es.find? (fun e => e.1 == l) = some (l, n) := by
  induction hes with
  | nil => exact absurd hmem List.not_mem_nil
  | cons hfirst _ ih =>
    rcases List.mem_cons.mp hmem with rfl | hmem
    · rw [List.find?_cons_of_pos (by simp)]
    · rw [List.find?_cons_of_neg (by simpa using hfirst _ hmem), ih hmem]

/-- In a tree that tells every place once, an entry is found. -/
theorem Distinct.lookup?_eq_some_iff (h : t.Distinct) (hl : l ≠ []) :
    t.lookup? l = some n ↔ (l, n) ∈ t.entries := by
  constructor
  · exact mem_entries_of_lookup? hl
  · intro hmem
    rw [lookup?, if_neg (by simpa using hl), find?_of_pairwise h hmem]
    rfl

theorem mem_insert {es : List (Location × Node)} {e : Location × Node} (h : e ∈ put.insert l n es) :
    e = (l, n) ∨ e ∈ es := by
  induction es with
  | nil => exact .inl (List.mem_singleton.mp h)
  | cons d es ih =>
    rw [put.insert] at h
    split at h
    · rcases List.mem_cons.mp h with rfl | h
      · exact .inl rfl
      · exact .inr (List.mem_cons_of_mem d h)
    · rcases List.mem_cons.mp h with rfl | h
      · exact .inr List.mem_cons_self
      · exact (ih h).imp id (List.mem_cons_of_mem d)

/-- Putting something at a place keeps places told once. -/
theorem Distinct.put (h : t.Distinct) (l : Location) (n : Node) : (t.put l n).Distinct := by
  obtain ⟨entries⟩ := t
  show (put.insert l n entries).Pairwise _
  replace h : entries.Pairwise fun a b => a.1 ≠ b.1 := h
  induction h with
  | nil => exact List.pairwise_singleton _ _
  | @cons d es hfirst hes ih =>
    rw [put.insert]
    split
    · next hd =>
      rw [← hd]
      exact List.pairwise_cons.mpr ⟨hfirst, hes⟩
    · next hd =>
      refine List.pairwise_cons.mpr ⟨?_, ih⟩
      intro e he
      rcases mem_insert he with rfl | he
      · exact hd
      · exact hfirst e he

theorem Distinct.write (h : t.Distinct) (l : Location) (bytes : List UInt8) :
    (t.write l bytes).Distinct := by
  apply Distinct.put
  unfold makeParents
  induction ((List.range l.dropLast.length).map fun k => l.dropLast.take (k + 1))
    generalizing t with
  | nil => exact h
  | cons d ds ih =>
    rw [List.foldl_cons]
    split
    · exact ih h
    · exact ih (h.put d .dir)

/-! ### Named places -/

/-- Names as the system has them, without slashes. -/
def IsNamed (l : List String) : Prop := IsPlain l ∧ ∀ name ∈ l, '/' ∉ name.toList

instance (l : List String) : Decidable (IsNamed l) :=
    inferInstanceAs (Decidable (_ ∧ ∀ name ∈ l, _))

theorem isNamed_nil : IsNamed [] :=
  ⟨fun _ h => absurd h List.not_mem_nil, fun _ h => absurd h List.not_mem_nil⟩

theorem IsNamed.of_subset {k l : List String} (h : IsNamed l) (hkl : k ⊆ l) : IsNamed k :=
  ⟨fun name hname => h.1 name (hkl hname), fun name hname => h.2 name (hkl hname)⟩

theorem stepLexically_subset (l : Location) (part : String) :
    Path.stepLexically l part ⊆ l ++ [part] := by
  unfold Path.stepLexically
  split
  · exact fun _ h => List.mem_append_left _ (List.dropLast_subset l h)
  · split
    · exact List.subset_append_left l [part]
    · exact List.Subset.refl _

/-- Following parts by their names alone adds no names but theirs. -/
theorem foldl_stepLexically_subset (l : Location) (parts : List String) :
    parts.foldl Path.stepLexically l ⊆ l ++ parts := by
  induction parts generalizing l with
  | nil => exact List.subset_append_left l []
  | cons part parts ih =>
    have hstep : Path.stepLexically l part ++ parts ⊆ l ++ [part] ++ parts :=
      List.append_subset.mpr ⟨List.subset_append_of_subset_left _ (stepLexically_subset l part),
        List.subset_append_right _ _⟩
    rw [List.append_assoc] at hstep
    exact List.Subset.trans (ih _) hstep

/-- The names of a location are those of the place from which it is seen and the parts of the
path. -/
theorem normalize_subset (l : Location) (p : Path) : p.normalize l ⊆ l ++ p.parts := by
  have hstart : p.start l ⊆ l := by
    unfold Path.start
    split
    · exact List.nil_subset l
    · exact List.Subset.refl l
  intro name hname
  rcases List.mem_append.mp (foldl_stepLexically_subset _ _ hname) with hname | hname
  · exact List.mem_append_left _ (hstart hname)
  · exact List.mem_append_right _ hname

/-- A written path seen from a named place has a named place. -/
theorem IsNamed.normalize (h : IsNamed l) {p : Path} (hp : IsWritten p) :
    IsNamed (p.normalize l) := by
  refine ⟨h.1.normalize p, ?_⟩
  intro name hname
  rcases List.mem_append.mp (normalize_subset l p hname) with hl | hpart
  · exact h.2 name hl
  · exact (hp name hpart).2.2

/-! ### Texts of named places -/

/-- Named places are written apart: their text can be taken to pieces again. -/
theorem pieces_text (h : IsNamed l) (hl : l ≠ []) : Path.pieces l.text = "" :: l := by
  rw [Location.text, pieces_cons_slash, pieces_slashed hl h.2]

theorem pieces_text_nil : Path.pieces (Location.text []) = ["", ""] := by decide +kernel

theorem text_append (hl : l ≠ []) (hm : m ≠ []) :
    (l ++ m).text = l.text ++ "/" ++ String.ofList (slashed m) := by
  apply String.toList_injective
  simp [Location.text, slashed_append hl hm]

/-- A named place lies strictly below another one exactly if its text starts with the text of the
other and a slash. Nothing is below the root in this sense, whose text ends in a slash already. -/
theorem prefix_text_iff {outdir place : Location} (houtdir : IsNamed outdir)
    (hplace : IsNamed place) :
    (outdir.text ++ "/").toList <+: place.text.toList ↔
      outdir ≠ [] ∧ outdir <+: place ∧ outdir ≠ place := by
  constructor
  · rintro ⟨rest, hrest⟩
    have htext : place.text = outdir.text ++ "/" ++ String.ofList rest := by
      apply String.toList_injective
      rw [← hrest]
      simp
    -- Cut at the slashes, the text has the pieces of the directory first.
    have hpieces := congrArg Path.pieces htext
    rw [Path.pieces_append] at hpieces
    have hlast := Path.pieces_ne_nil (String.ofList rest)
    have hplaceNe : place ≠ [] := by
      rintro rfl
      have hlength := congrArg List.length hrest
      simp [Location.text, slashed, Text.join] at hlength
    rw [pieces_text hplace hplaceNe] at hpieces
    by_cases hroot : outdir = []
    -- The root is a slash itself, and with one more the first name would be empty.
    · rw [hroot, pieces_text_nil] at hpieces
      obtain ⟨-, rfl⟩ := List.cons.inj hpieces
      exact absurd rfl (hplace.1 "" List.mem_cons_self).1
    · rw [pieces_text houtdir hroot] at hpieces
      obtain ⟨-, rfl⟩ := List.cons.inj hpieces
      exact ⟨hroot, List.prefix_append _ _, by simpa using hlast⟩
  · rintro ⟨hroot, ⟨rest, rfl⟩, hne⟩
    have hrest : rest ≠ [] := by
      rintro rfl
      simp at hne
    rw [text_append hroot hrest, String.toList_append (s := outdir.text ++ "/")]
    exact List.prefix_append _ _

/-! ### Sound trees -/

/-- A tree as a file system can be. -/
structure Sound (t : FileTree) : Prop where
  distinct : t.Distinct
  connected : t.Connected
  named : ∀ e ∈ t.entries, IsNamed e.1

instance (t : FileTree) : Decidable t.Sound :=
  decidable_of_iff (t.Distinct ∧ t.Connected ∧ ∀ e ∈ t.entries, IsNamed e.1)
    ⟨fun ⟨hdistinct, hconnected, hnamed⟩ => ⟨hdistinct, hconnected, hnamed⟩,
      fun h => ⟨h.distinct, h.connected, h.named⟩⟩

theorem Sound.isNamed_of_lookup? (h : t.Sound) (hl : t.lookup? l = some n) : IsNamed l := by
  by_cases hnil : l = []
  · rw [hnil]
    exact isNamed_nil
  · exact h.named _ (mem_entries_of_lookup? hnil hl)

theorem Sound.isNamed_right (h : t.Sound) {names : List String}
    (hl : t.lookup? (l ++ names) = some n) :
    IsNamed names :=
  (h.isNamed_of_lookup? hl).of_subset (List.subset_append_right l names)

/-- Writing to a free place keeps a tree sound. -/
theorem Sound.write (h : t.Sound) (hnamed : IsNamed l) (hl : l ≠ []) (hfree : t.FreeAt l)
    (bytes : List UInt8) : (t.write l bytes).Sound := by
  refine ⟨h.distinct.write l bytes, h.connected.write hl hfree bytes, ?_⟩
  intro e he
  obtain ⟨n, hn⟩ := exists_lookup?_of_mem he
  rw [lookup?_write _ _ _ _ hl] at hn
  split at hn
  · next hel =>
    rw [hel]
    exact hnamed
  · cases hold : t.lookup? e.1 with
    | some n => exact h.isNamed_of_lookup? hold
    | none =>
      rw [hold, Option.none_or] at hn
      split at hn
      · next habove => exact hnamed.of_subset (habove.trans (List.dropLast_prefix l)).subset
      · cases hn

/-! ### Listings -/

/-- What is listed in a directory is what can be looked up there. -/
theorem mem_list_iff (h : t.Distinct) {cwd : Location} {path name : String} :
    (name, n) ∈ t.list cwd path ↔
      ∃ l, t.find cwd path = .ok (l, .dir) ∧ t.lookup? (l ++ [name]) = some n := by
  unfold list
  split
  · next l hfind =>
    rw [List.mem_filterMap]
    constructor
    · rintro ⟨⟨place, k⟩, hmem, hk⟩
      dsimp only at hk
      split at hk
      · next last hlast =>
        split at hk
        · next hdir =>
          cases hk
          obtain ⟨above, rfl⟩ := List.getLast?_eq_some_iff.mp hlast
          rw [List.dropLast_concat] at hdir
          subst hdir
          exact ⟨above, hfind, (h.lookup?_eq_some_iff (by simp)).mpr hmem⟩
        · cases hk
      · cases hk
    · rintro ⟨m, hm, hlookup⟩
      rw [hfind] at hm
      cases hm
      exact ⟨(l ++ [name], n), mem_entries_of_lookup? (by simp) hlookup, by simp⟩
  · next hnot =>
    constructor
    · intro hmem
      exact absurd hmem List.not_mem_nil
    · rintro ⟨m, hm, -⟩
      exact absurd hm (hnot m)

/-- What is listed below a directory is what can be looked up below it. -/
theorem mem_listBelow_iff (h : t.Distinct) {cwd : Location} {path : String} {names : List String} :
    (names, n) ∈ t.listBelow cwd path ↔
      ∃ l, t.find cwd path = .ok (l, .dir) ∧ names ≠ [] ∧ t.lookup? (l ++ names) = some n := by
  unfold listBelow
  split
  · next l hfind =>
    rw [List.mem_filterMap]
    constructor
    · rintro ⟨⟨place, k⟩, hmem, hk⟩
      dsimp only at hk
      split at hk
      · next hbelow =>
        cases hk
        obtain ⟨hprefixOf, hlt⟩ := hbelow
        obtain ⟨rest, rfl⟩ := List.isPrefixOf_iff_prefix.mp hprefixOf
        rw [List.length_append] at hlt
        have hrest : rest ≠ [] := by
          rintro rfl
          exact absurd hlt (by simp)
        rw [List.drop_left]
        exact ⟨l, hfind, hrest, (h.lookup?_eq_some_iff (by simp [hrest])).mpr hmem⟩
      · cases hk
    · rintro ⟨m, hm, hnames, hlookup⟩
      rw [hfind] at hm
      cases hm
      refine ⟨(l ++ names, n), mem_entries_of_lookup? (by simp [hnames]) hlookup, ?_⟩
      have hlt : l.length < (l ++ names).length := by
        rw [List.length_append]
        have := List.length_pos_iff.mpr hnames
        omega
      have hprefixOf : l.isPrefixOf (l ++ names) = true :=
        List.isPrefixOf_iff_prefix.mpr (List.prefix_append l names)
      dsimp only
      rw [if_pos ⟨hprefixOf, hlt⟩, List.drop_left]
  · next hnot =>
    constructor
    · intro hmem
      exact absurd hmem List.not_mem_nil
    · rintro ⟨m, hm, -⟩
      exact absurd hm (hnot m)

end StyleGuide.FileTree
