import StyleGuide.Files.Tree

/-!
# What writing does to the file tree

Directories are made where nothing is, and a file is put in its place; all else is looked up as
before (`lookup?_write`). So a tree in which everything is inside of a directory (`Connected`) stays
one, and a file that can be looked up in it can also be read: nothing on the way to it is missing
(`Connected.readAt_eq_ok`).

`FileTree.file?` tells the files of a tree without the directories. Making directories leaves them
as they are, and writing changes one of them.
-/

namespace StyleGuide.FileTree

variable {t : FileTree} {l m : Location} {bytes : List UInt8}

/-! ### Making directories -/

theorem lookup?_nil (t : FileTree) : t.lookup? [] = some .dir := rfl

/-- Directories that are made one after the other, each where nothing is. -/
theorem lookup?_foldl_put (ds : List Location) (hds : ∀ d ∈ ds, d ≠ []) (t : FileTree)
    (m : Location) :
    (ds.foldl (fun t d => if (t.lookup? d).isSome then t else t.put d .dir) t).lookup? m =
      (t.lookup? m).or (if m ∈ ds then some .dir else none) := by
  induction ds generalizing t with
  | nil => simp
  | cons d ds ih =>
    obtain ⟨hd, hds⟩ := List.forall_mem_cons.mp hds
    rw [List.foldl_cons, ih hds]
    by_cases hsome : (t.lookup? d).isSome
    · rw [if_pos hsome]
      by_cases hm : m = d
      · obtain ⟨n, hn⟩ := Option.isSome_iff_exists.mp hsome
        simp [hm, hn]
      · simp [hm]
    · rw [if_neg hsome, lookup?_put _ _ _ _ hd]
      by_cases hm : m = d
      · have hnone : t.lookup? d = none := by simpa using hsome
        simp [hm, hnone]
      · simp [hm]

theorem mem_range_take_iff (l m : Location) :
    m ∈ (List.range l.length).map (fun k => l.take (k + 1)) ↔ m <+: l ∧ m ≠ [] := by
  rw [List.mem_map]
  constructor
  · rintro ⟨k, hk, rfl⟩
    refine ⟨List.take_prefix _ _, ?_⟩
    rw [List.mem_range] at hk
    intro hnil
    have hlength := congrArg List.length hnil
    rw [List.length_take, List.length_nil] at hlength
    omega
  · rintro ⟨hprefixOf, hne⟩
    have hle := hprefixOf.length_le
    have hpos := List.length_pos_iff.mpr hne
    refine ⟨m.length - 1, ?_, ?_⟩
    · rw [List.mem_range]
      omega
    · rw [Nat.sub_add_cancel hpos]
      exact (List.prefix_iff_eq_take.mp hprefixOf).symm

/-- All that was there stays, and the way down to the location is there. -/
theorem lookup?_makeParents (t : FileTree) (l m : Location) :
    (t.makeParents l).lookup? m = (t.lookup? m).or (if m <+: l then some .dir else none) := by
  rw [makeParents, lookup?_foldl_put _ fun d hd => ((mem_range_take_iff l d).mp hd).2]
  simp only [mem_range_take_iff]
  by_cases hm : m = []
  · simp [hm, lookup?_nil]
  · simp [hm]

/-- A file that is written is there, with directories above it; all else stays as it was. -/
theorem lookup?_write (t : FileTree) (l m : Location) (bytes : List UInt8) (hl : l ≠ []) :
    (t.write l bytes).lookup? m =
      if m = l then some (.file bytes)
      else (t.lookup? m).or (if m <+: l.dropLast then some .dir else none) := by
  rw [write, lookup?_put _ _ _ _ hl, lookup?_makeParents]

/-! ### Files -/

/-- The bytes of the file at a location, if there is one. -/
def file? (t : FileTree) (l : Location) : Option (List UInt8) :=
  match t.lookup? l with
  | some (.file bytes) => some bytes
  | _ => none

theorem file?_eq_some_iff : t.file? l = some bytes ↔ t.lookup? l = some (.file bytes) := by
  unfold file?
  split
  · next h => simp [h]
  · next h =>
    constructor
    · intro hbytes
      cases hbytes
    · intro hbytes
      exact absurd hbytes (h bytes)

/-- Two trees have the same files; directories do not count. -/
def SameFiles (t t' : FileTree) : Prop := ∀ l, t'.file? l = t.file? l

theorem SameFiles.refl (t : FileTree) : t.SameFiles t := fun _ => rfl

theorem SameFiles.trans {t t' t'' : FileTree} (h : t.SameFiles t') (h' : t'.SameFiles t'') :
    t.SameFiles t'' :=
  fun l => (h' l).trans (h l)

/-- What is looked up as before, or is a directory where nothing was, is no change of files. -/
theorem file?_congr {t t' : FileTree} {p : Prop} [Decidable p]
    (h : t'.lookup? l = (t.lookup? l).or (if p then some .dir else none)) :
      t'.file? l = t.file? l := by
  unfold file?
  rw [h]
  cases t.lookup? l with
  | some n => rfl
  | none => by_cases hp : p <;> simp [hp]

theorem sameFiles_makeParents (t : FileTree) (l : Location) : t.SameFiles (t.makeParents l) :=
  fun m => file?_congr (lookup?_makeParents t l m)

theorem sameFiles_put_dir (hl : l ≠ []) (hnone : t.lookup? l = none) :
    t.SameFiles (t.put l .dir) := by
  intro m
  apply file?_congr (p := m = l)
  rw [lookup?_put _ _ _ _ hl]
  by_cases hm : m = l
  · simp [hm, hnone]
  · simp [hm]

/-- A directory is made where nothing was, so no file is lost. -/
theorem sameFiles_makeDir (t : FileTree) (cwd : Location) (p : Path) :
    t.SameFiles (t.makeDir cwd p).2 := by
  unfold makeDir
  split
  case h_5 l _ =>
    split
    · next hnone =>
      apply sameFiles_put_dir _ hnone
      rintro rfl
      cases hnone
    · exact .refl t
    · exact .refl t
  all_goals exact .refl t

/-- The directories that are made leave the files as they are, whether or not all of them can
be made. -/
theorem sameFiles_makeDirs (t : FileTree) (cwd : Location) (p : Path) (n : Nat) :
    t.SameFiles (t.makeDirs cwd p n).2 := by
  induction n with
  | zero => exact .refl t
  | succ n ih =>
    unfold makeDirs
    extract_lets head
    split
    · split
      · next t' habove =>
        rw [habove] at ih
        exact ih.trans (sameFiles_makeDir t' cwd head)
      · exact ih
    · exact sameFiles_makeDir t cwd head

/-- Writing changes one file. -/
theorem file?_write (t : FileTree) (l m : Location) (bytes : List UInt8) (hl : l ≠ []) :
    (t.write l bytes).file? m = if m = l then some bytes else t.file? m := by
  by_cases hm : m = l
  · rw [if_pos hm, file?_eq_some_iff, lookup?_write _ _ _ _ hl, if_pos hm]
  · rw [if_neg hm]
    apply file?_congr (p := m <+: l.dropLast)
    rw [lookup?_write _ _ _ _ hl, if_neg hm]

/-! ### Connected trees -/

/-- Everything is inside of a directory. -/
def Connected (t : FileTree) : Prop :=
  ∀ e ∈ t.entries, ∀ k < e.1.length, t.lookup? (e.1.take k) = some .dir

instance (t : FileTree) : Decidable t.Connected :=
  inferInstanceAs (Decidable (∀ e ∈ t.entries, ∀ k < e.1.length, _))

theorem mem_entries_of_lookup? {n : Node} (hl : l ≠ []) (h : t.lookup? l = some n) :
    (l, n) ∈ t.entries := by
  unfold lookup? at h
  rw [if_neg (by simpa using hl)] at h
  obtain ⟨⟨place, node⟩, hfind, rfl⟩ := Option.map_eq_some_iff.mp h
  have hplace : place = l := by simpa using List.find?_some hfind
  rw [← hplace]
  exact List.mem_of_find?_eq_some hfind

theorem exists_lookup?_of_mem {e : Location × Node} (h : e ∈ t.entries) :
    ∃ n, t.lookup? e.1 = some n := by
  by_cases hl : e.1 = []
  · exact ⟨.dir, by rw [hl, lookup?_nil]⟩
  · unfold lookup?
    rw [if_neg (by simpa using hl)]
    cases hfind : t.entries.find? fun f => f.1 == e.1 with
    | some f => exact ⟨f.2, rfl⟩
    | none => simpa using List.find?_eq_none.mp hfind e h

/-- The locations above one that is there are directories. -/
theorem Connected.lookup?_eq_dir (h : t.Connected) (hl : (t.lookup? l).isSome = true) (hm : m <+: l)
    (hne : m ≠ l) : t.lookup? m = some .dir := by
  obtain ⟨n, hn⟩ := Option.isSome_iff_exists.mp hl
  by_cases hnil : l = []
  · rw [hnil, List.prefix_nil] at hm
    exact absurd (hm.trans hnil.symm) hne
  · have hmem := mem_entries_of_lookup? hnil hn
    have hlt : m.length < l.length := by
      have hle := hm.length_le
      have hlength : m.length ≠ l.length := fun heq => hne (hm.eq_of_length heq)
      omega
    have hdir := h (l, n) hmem m.length hlt
    rwa [← List.prefix_iff_eq_take.mp hm] at hdir

/-- In a connected tree, what is above something is a directory. -/
theorem connected_iff : t.Connected ↔ ∀ l m, (t.lookup? l).isSome = true → m <+: l → m ≠ l →
    t.lookup? m = some .dir := by
  constructor
  · intro h l m hl hm hne
    exact h.lookup?_eq_dir hl hm hne
  · intro h e he k hk
    obtain ⟨n, hn⟩ := exists_lookup?_of_mem he
    apply h e.1 _ (by rw [hn]; rfl) (List.take_prefix _ _)
    intro heq
    have := congrArg List.length heq
    rw [List.length_take] at this
    omega

/-! ### Following a location -/

/-- The names are names: none is empty, and none means the directory itself or the one above. -/
def IsPlain (l : List String) : Prop := ∀ name ∈ l, name ≠ "" ∧ name ≠ "." ∧ name ≠ ".."

instance (l : List String) : Decidable (IsPlain l) :=
  inferInstanceAs (Decidable (∀ name ∈ l, _))

/-- Following a part leaves plain names. -/
theorem IsPlain.stepLexically (h : IsPlain l) (part : String) :
    IsPlain (Path.stepLexically l part) := by
  unfold Path.stepLexically
  split
  · exact fun name hname => h name ((List.dropLast_sublist l).subset hname)
  · next hup =>
    split
    · exact h
    · next hpart =>
      rw [not_or] at hpart
      intro name hname
      rcases List.mem_append.mp hname with hname | hname
      · exact h name hname
      · rw [List.mem_singleton.mp hname]
        exact ⟨hpart.1, hpart.2, hup⟩

/-- The location of a path has names only, if the place from which it is seen has. -/
theorem IsPlain.normalize (h : IsPlain l) (p : Path) : IsPlain (p.normalize l) := by
  have hstart : IsPlain (p.start l) := by
    unfold Path.start
    split
    · exact fun _ hname => absurd hname List.not_mem_nil
    · exact h
  unfold Path.normalize
  generalize p.start l = start at hstart
  induction p.parts generalizing start with
  | nil => exact hstart
  | cons part parts ih => exact ih _ (hstart.stepLexically part)

theorem stepLexically_of_plain {name : String} (h : name ≠ "" ∧ name ≠ "." ∧ name ≠ "..") :
    Path.stepLexically l name = l ++ [name] := by
  simp [Path.stepLexically, h]

/-- What a walk along names can do: it comes to its end through directories, finds nothing behind
some directories, finds a file in its way, or a name that is too long. -/
theorem walk_cases {parts : List String} (h : IsPlain parts) (t : FileTree) (l : Location) :
    (t.walk l parts = .ok (l ++ parts) ∧
      (∀ k < parts.length, t.lookup? (l ++ parts.take k) = some .dir)) ∨
    (t.walk l parts = .error .missing ∧ ∃ k < parts.length, t.lookup? (l ++ parts.take k) = none ∧
      ∀ j < k, t.lookup? (l ++ parts.take j) = some .dir) ∨
    (t.walk l parts = .error .notDirectory ∧ ∃ k < parts.length, ∃ bytes,
      t.lookup? (l ++ parts.take k) = some (.file bytes)) ∨
    (t.walk l parts = .error .tooLong ∧ parts.any isTooLong = true) := by
  induction parts generalizing l with
  | nil => exact .inl ⟨by rw [walk, List.append_nil], fun k hk => nomatch hk⟩
  | cons name parts ih =>
    obtain ⟨hname, hparts⟩ := List.forall_mem_cons.mp h
    rw [walk]
    cases hlookup : t.lookup? l with
    | none => exact .inr (.inl ⟨rfl, 0, by simp, by simpa using hlookup, fun j hj => nomatch hj⟩)
    | some n =>
      cases n with
      | file bytes => exact .inr (.inr (.inl ⟨rfl, 0, by simp, bytes, by simpa using hlookup⟩))
      | dir =>
        by_cases hlong : isTooLong name = true
        · exact .inr (.inr (.inr ⟨if_pos hlong, by simp [hlong]⟩))
        -- Behind the name the walk goes on from there, with one name less in front.
        · have htake : ∀ k, l ++ (name :: parts).take (k + 1) = (l ++ [name]) ++ parts.take k := by
            simp
          have hfirst : t.lookup? (l ++ (name :: parts).take 0) = some .dir := by
            simpa using hlookup
          simp only [if_neg hlong, stepLexically_of_plain hname]
          rcases ih hparts (l ++ [name]) with ⟨hok, hdirs⟩ | ⟨hmissing, k, hk, hnone, hdirs⟩ |
            ⟨hfile, k, hk, bytes, hbytes⟩ | ⟨hlong, hany⟩
          · refine .inl ⟨by rw [hok]; simp, ?_⟩
            rintro (_ | k) hk
            · exact hfirst
            · rw [htake]
              exact hdirs k (by simpa using hk)
          · refine .inr (.inl ⟨hmissing, k + 1, by simpa using hk, by rw [htake]; exact hnone, ?_⟩)
            rintro (_ | j) hj
            · exact hfirst
            · rw [htake]
              exact hdirs j (by omega)
          · exact .inr (.inr (.inl ⟨hfile, k + 1, by simpa using hk,
              bytes, by rw [htake]; exact hbytes⟩))
          · exact .inr (.inr (.inr ⟨hlong, by simp [hany]⟩))

/-- The locations above one are directories, down to the given depth. -/
def DirsAbove (t : FileTree) (l : Location) (k : Nat) : Prop :=
  ∀ j < k, t.lookup? (l.take j) = some .dir

/-- What is wrong with a text is a null character or its length. -/
theorem textFault?_cases {path : String} {fault : WalkFault} (h : textFault? path = some fault) :
    fault = .nullCharacter ∨ fault = .tooLong := by
  unfold textFault? at h
  split at h
  · exact .inl (Option.some.inj h).symm
  · split at h
    · exact .inr (Option.some.inj h).symm
    · cases h

/-- What reading at a location can find: a file; nothing, behind some directories; a directory; a
file in the way; or it cannot even be looked for. -/
theorem readAt_cases (h : IsPlain l) (t : FileTree) :
    (∃ bytes, t.readAt l = .ok bytes ∧ t.lookup? l = some (.file bytes) ∧ t.DirsAbove l l.length) ∨
    (t.readAt l = .error (.missing l.text) ∧
      ∃ k ≤ l.length, t.lookup? (l.take k) = none ∧ t.DirsAbove l k) ∨
    (t.readAt l = .error .isDirectory ∧ t.lookup? l = some .dir) ∨
    (t.readAt l = .error .notDirectory ∧ ∃ k < l.length, ∃ bytes,
      t.lookup? (l.take k) = some (.file bytes)) ∨
    ((t.readAt l = .error .tooLong ∨ t.readAt l = .error .nullCharacter) ∧
      (textFault? l.text ≠ none ∨ l.any isTooLong = true)) := by
  unfold readAt findAt
  cases htext : textFault? l.text with
  | some fault =>
    rcases textFault?_cases htext with rfl | rfl <;> simp [bytesOf]
  | none =>
    have hwalk := walk_cases h t []
    simp only [List.nil_append] at hwalk
    dsimp only [findFrom]
    rcases hwalk with ⟨hok, hdirs⟩ | ⟨hmissing, k, hk, hnone, hdirs⟩ | ⟨hfile, hk⟩ | ⟨hlong, hany⟩
    · rw [hok]
      dsimp only
      cases hlookup : t.lookup? l with
      | none =>
        exact .inr (.inl ⟨rfl, l.length, Nat.le_refl _, by rw [List.take_length, hlookup], hdirs⟩)
      | some n =>
        cases n with
        | file bytes => exact .inl ⟨bytes, rfl, rfl, hdirs⟩
        | dir => exact .inr (.inr (.inl ⟨rfl, rfl⟩))
    · rw [hmissing]
      exact .inr (.inl ⟨rfl, k, Nat.le_of_lt hk, hnone, hdirs⟩)
    · rw [hfile]
      exact .inr (.inr (.inr (.inl ⟨rfl, hk⟩)))
    · rw [hlong]
      exact .inr (.inr (.inr (.inr ⟨.inl rfl, .inr hany⟩)))

theorem Connected.dirsAbove (h : t.Connected) (hl : (t.lookup? l).isSome = true) :
    t.DirsAbove l l.length := by
  intro j hj
  apply h.lookup?_eq_dir hl (List.take_prefix j l)
  intro heq
  have hlength := congrArg List.length heq
  rw [List.length_take] at hlength
  omega

/-- A file that can be looked for can be read. -/
theorem Connected.readAt_eq_ok (h : t.Connected) (hplain : IsPlain l)
    (hfile : t.file? l = some bytes)
    (htext : textFault? l.text = none) (hshort : l.any isTooLong = false) :
      t.readAt l = .ok bytes := by
  have hlookup := file?_eq_some_iff.mp hfile
  have hdirs := h.dirsAbove (l := l) (by rw [hlookup]; rfl)
  rcases readAt_cases hplain t with ⟨other, hread, hother, -⟩ | ⟨-, k, hk, hnone, -⟩ | ⟨-, hdir⟩ |
    ⟨-, k, hk, other, hother⟩ | ⟨-, hfault | hlong⟩
  · rw [hlookup] at hother
    cases hother
    exact hread
  · rcases Nat.lt_or_eq_of_le hk with hk | rfl
    · rw [hdirs k hk] at hnone
      cases hnone
    · rw [List.take_length, hlookup] at hnone
      cases hnone
  · rw [hlookup] at hdir
    cases hdir
  · rw [hdirs k hk] at hother
    cases hother
  · exact absurd htext hfault
  · rw [hshort] at hlong
    cases hlong

/-! ### Free places -/

/-- A file can be written at the location: no directory is there, and above it is nothing but
directories. -/
structure FreeAt (t : FileTree) (l : Location) : Prop where
  not_dir : t.lookup? l ≠ some .dir
  above : ∀ k < l.length, t.lookup? (l.take k) = some .dir ∨ t.lookup? (l.take k) = none

/-- A file that can be read can be written. -/
theorem freeAt_of_readAt (hplain : IsPlain l) (hread : t.readAt l = .ok bytes) :
    t.file? l = some bytes ∧ t.FreeAt l := by
  rcases readAt_cases hplain t with ⟨other, hother, hlookup, hdirs⟩ | ⟨hother, -⟩ | ⟨hother, -⟩ |
    ⟨hother, -⟩ | ⟨hother | hother, -⟩ <;> rw [hread] at hother <;> cases hother
  refine ⟨file?_eq_some_iff.mpr hlookup, ?_, fun k hk => .inl (hdirs k hk)⟩
  rw [hlookup]
  simp

/-- A file that is missing can be written, for nothing is in its way. -/
theorem Connected.freeAt_of_missing (h : t.Connected) (hplain : IsPlain l) {path : String}
    (hmissing : t.readAt l = .error (.missing path)) : t.lookup? l = none ∧ t.FreeAt l := by
  rcases readAt_cases hplain t with ⟨other, hother, -⟩ | ⟨-, k, hk, hnone, hdirs⟩ | ⟨hother, -⟩ |
    ⟨hother, -⟩ | ⟨hother | hother, -⟩
  case inr.inl =>
    -- In a connected tree nothing is below a place where nothing is.
    have hbelow : ∀ j, k ≤ j → t.lookup? (l.take j) = none := by
      intro j hj
      rcases Nat.lt_or_ge k (l.take j).length with hlt | hge
      · cases hlookup : t.lookup? (l.take j) with
        | none => rfl
        | some n =>
          have hdir := h.dirsAbove (l := l.take j) (by rw [hlookup]; rfl) k hlt
          rw [List.take_take, Nat.min_eq_left hj, hnone] at hdir
          cases hdir
      · rw [List.length_take] at hge
        have hall : l.take j = l.take k := by
          rw [List.take_eq_take_iff]
          omega
        rw [hall, hnone]
    have hlast := hbelow l.length hk
    rw [List.take_length] at hlast
    refine ⟨hlast, by rw [hlast]; simp, ?_⟩
    intro j hj
    rcases Nat.lt_or_ge j k with hlt | hge
    · exact .inl (hdirs j hlt)
    · exact .inr (hbelow j hge)
  all_goals
    rw [hmissing] at hother
    cases hother

theorem prefix_dropLast_of_ne (hm : m <+: l) (hne : m ≠ l) : m <+: l.dropLast := by
  obtain ⟨rest, rfl⟩ := hm
  have hrest : rest ≠ [] := by
    rintro rfl
    simp at hne
  rw [List.dropLast_append_of_ne_nil hrest]
  exact List.prefix_append m _

/-- Writing to a free place keeps a tree connected. -/
theorem Connected.write (h : t.Connected) (hl : l ≠ []) (hfree : t.FreeAt l) (bytes : List UInt8) :
    (t.write l bytes).Connected := by
  rw [connected_iff]
  intro m d hm hd hne
  -- Above the new file the way was made, and all else had its directories before.
  have habove : d <+: l.dropLast → (t.write l bytes).lookup? d = some .dir := by
    intro hd
    have hlt : d.length < l.length := by
      have hle := hd.length_le
      have hpos := List.length_pos_iff.mpr hl
      rw [List.length_dropLast] at hle
      omega
    have htake : d = l.take d.length :=
      List.prefix_iff_eq_take.mp (hd.trans (List.dropLast_prefix l))
    have hdl : d ≠ l := by
      rintro rfl
      omega
    rw [lookup?_write _ _ _ _ hl, if_neg hdl]
    have hcases := hfree.above d.length hlt
    rw [← htake] at hcases
    rcases hcases with hdir | hnone
    · rw [hdir]
      rfl
    · rw [hnone, if_pos hd]
      rfl
  have hkept : t.lookup? d = some .dir → (t.write l bytes).lookup? d = some .dir := by
    intro hdir
    have hdl : d ≠ l := by
      rintro rfl
      exact hfree.not_dir hdir
    rw [lookup?_write _ _ _ _ hl, if_neg hdl, hdir]
    rfl
  rw [lookup?_write _ _ _ _ hl] at hm
  split at hm
  · next hml =>
    apply habove
    rw [hml] at hd hne
    exact prefix_dropLast_of_ne hd hne
  · cases hold : t.lookup? m with
    | some n => exact hkept (h.lookup?_eq_dir (by rw [hold]; rfl) hd hne)
    | none =>
      rw [hold] at hm
      have hml : m <+: l.dropLast := by
        by_cases hml : m <+: l.dropLast
        · exact hml
        · simp [hml] at hm
      exact habove (hd.trans hml)

end StyleGuide.FileTree
