import StyleGuide.Files.Glob
import StyleGuide.Proofs.Files.Writing
import StyleGuide.Proofs.Text.Pieces

/-!
# Following paths in two trees

Without parent parts a walk goes straight down, so all that it looks at lies above its end: two
trees in which all of this is the same lead the walk to the same (`walk_congr`). A path that is
written behind a directory is walked from that directory (`find_joinNonEmpty`, `find_join`).
-/

namespace StyleGuide

/-! ### Parts by name -/

namespace Path

def meaningful (parts : List String) : List String := parts.filter fun p => p ≠ "" ∧ p ≠ "."

theorem meaningful_append (ps qs : List String) : meaningful (ps ++ qs) = meaningful ps ++
    meaningful qs :=
  List.filter_append ..

theorem meaningful_meaningful (ps : List String) : meaningful (meaningful ps) = meaningful ps := by
  simp [meaningful]

/-- Unless it goes up, a part adds its name, if it means something. -/
theorem stepLexically_eq {part : String} (h : part ≠ "..") (l : Location) :
    stepLexically l part = l ++ meaningful [part] := by
  by_cases hempty : part = "" ∨ part = "."
  · rcases hempty with rfl | rfl <;> simp [stepLexically, meaningful]
  · obtain ⟨hne, hpoint⟩ := not_or.mp hempty
    simp [stepLexically, meaningful, h, hne, hpoint]

/-! ### Written paths -/

theorem pieces_ne_nil (s : String) : pieces s ≠ [] := by
  intro h
  exact Text.splitAt_ne_nil '/' s.toList (List.map_eq_nil_iff.mp h)

/-- A slash is a cut between pieces. -/
theorem pieces_append (a b : String) : pieces (a ++ "/" ++ b) = pieces a ++ pieces b := by
  have htoList : (a ++ "/" ++ b).toList = a.toList ++ '/' :: b.toList := by
    rw [String.toList_append, String.toList_append, List.append_assoc]
    rfl
  rw [pieces, pieces, pieces, htoList, Text.splitAt_append, List.map_append]

theorem pieces_append_slash (a : String) : pieces (a ++ "/") = pieces a ++ [""] := by
  have h := pieces_append a ""
  rwa [String.append_empty] at h

/-- A written path starts at the root exactly if its first character is a slash. -/
theorem isAbsolute_ofString_iff {s : String} : (ofString s).isAbsolute = true ↔
    s.toList.head? = some '/' := by
  unfold isAbsolute ofString anchorOf
  dsimp only
  split
  · next h => simp [h]
  · next h => simp [h]
  · next h => simp [h]
  · next h =>
    cases hs : s.toList with
    | nil => simp
    | cons c cs =>
      by_cases hc : c = '/'
      · exact absurd hs (hc ▸ h cs)
      · simp [hc]

theorem isAbsolute_congr {a b : String} (h : a.toList.head? = b.toList.head?) :
    (ofString a).isAbsolute = (ofString b).isAbsolute := by
  rw [Bool.eq_iff_iff, isAbsolute_ofString_iff, isAbsolute_ofString_iff, h]

end Path

namespace Glob

open Path

/-- The two ways in which a name is written behind a directory. -/
theorem joinText_cases (dir : String) {name : String} (hname : name.toList.head? ≠ some '/') :
    (joinText dir name = dir ++ name ∧ (dir = "" ∨ ∃ d, dir = d ++ "/")) ∨
      (joinText dir name = dir ++ "/" ++ name ∧ dir ≠ "") := by
  unfold joinText
  rw [if_neg hname]
  split
  · next h =>
    refine .inl ⟨rfl, ?_⟩
    rcases Bool.or_eq_true_iff.mp h with hempty | hslash
    · exact .inl (String.isEmpty_iff.mp hempty)
    · obtain ⟨x, hx⟩ := List.getLast?_eq_some_iff.mp (of_decide_eq_true hslash)
      refine .inr ⟨String.ofList x, String.toList_inj.mp ?_⟩
      rw [hx, String.toList_append, String.toList_ofList]
      rfl
  · next h =>
    refine .inr ⟨rfl, ?_⟩
    rintro rfl
    exact h (by decide)

theorem joinText_ne_empty {dir : String} (hdir : dir ≠ "") (name : String) :
    joinText dir name ≠ "" := by
  intro h
  unfold joinText at h
  split at h
  · next hslash =>
    rw [h] at hslash
    cases hslash
  · have hnil := congrArg String.toList h
    have hempty : dir.toList = [] := by
      split at hnil
      · rw [String.toList_append] at hnil
        exact (List.append_eq_nil_iff.mp hnil).1
      · rw [String.toList_append, String.toList_append] at hnil
        exact (List.append_eq_nil_iff.mp (List.append_eq_nil_iff.mp hnil).1).1
    exact hdir (String.toList_eq_nil_iff.mp hempty)

theorem head?_joinText {dir name : String} (hdir : dir ≠ "")
    (hname : name.toList.head? ≠ some '/') :
    (joinText dir name).toList.head? = dir.toList.head? := by
  obtain ⟨c, cs, hcs⟩ := List.exists_cons_of_ne_nil (mt String.toList_eq_nil_iff.mp hdir)
  obtain ⟨h, -⟩ | ⟨h, -⟩ := joinText_cases dir hname
  · rw [h, String.toList_append, hcs]
    rfl
  · rw [h, String.toList_append, String.toList_append, hcs]
    rfl

/-- Joining paths joins the parts that mean something. -/
theorem meaningful_joinText (dir : String) {name : String} (hname : name.toList.head? ≠ some '/') :
    meaningful (pieces (joinText dir name)) = meaningful (pieces dir) ++
      meaningful (pieces name) := by
  obtain ⟨h, rfl | ⟨d, rfl⟩⟩ | ⟨h, -⟩ := joinText_cases dir hname
  · rw [h, String.empty_append]
    rfl
  · rw [h, pieces_append, pieces_append_slash, meaningful_append, meaningful_append]
    simp [meaningful]
  · rw [h, pieces_append, meaningful_append]

end Glob

namespace FileTree

variable {t u : FileTree} {l m : Location} {parts : List String}

/-! ### Walks -/

/-- Without parent parts, a walk comes to where the names lead. -/
theorem walk_eq_ok (hdown : ".." ∉ parts) (h : t.walk l parts = .ok m) :
    m = l ++ Path.meaningful parts := by
  induction parts generalizing l with
  | nil =>
    cases h
    exact (List.append_nil _).symm
  | cons p ps ih =>
    rw [List.mem_cons, not_or] at hdown
    rw [walk] at h
    split at h
    · cases h
    · cases h
    · split at h
      · cases h
      · rw [ih hdown.2 h, Path.stepLexically_eq (Ne.symm hdown.1), List.append_assoc,
          ← Path.meaningful_append]
        rfl

theorem walk_append (ps qs : List String) :
    t.walk l (ps ++ qs) = (t.walk l ps).bind fun m => t.walk m qs := by
  induction ps generalizing l with
  | nil => rfl
  | cons p ps ih =>
    rw [List.cons_append, walk, walk]
    split
    · rfl
    · rfl
    · split
      · rfl
      · exact ih

/-- What is at a place, and at all places above it, is the same in two trees. -/
def AgreeAbove (t u : FileTree) (l : Location) : Prop := ∀ d, d <+: l → t.lookup? d = u.lookup? d

theorem AgreeAbove.mono (h : t.AgreeAbove u l) (hml : m <+: l) : t.AgreeAbove u m :=
  fun d hd => h d (hd.trans hml)

theorem AgreeAbove.symm (h : t.AgreeAbove u l) : u.AgreeAbove t l :=
  fun d hd => (h d hd).symm

/-- A walk looks only at what lies above its end. -/
theorem walk_congr (hdown : ".." ∉ parts) (hsame : t.AgreeAbove u (l ++ Path.meaningful parts)) :
    t.walk l parts = u.walk l parts := by
  induction parts generalizing l with
  | nil => rfl
  | cons p ps ih =>
    rw [List.mem_cons, not_or] at hdown
    have hstep := Path.stepLexically_eq (Ne.symm hdown.1) l
    have hcons : Path.meaningful (p :: ps) = Path.meaningful [p] ++ Path.meaningful ps :=
      Path.meaningful_append [p] ps
    rw [walk, walk, hsame l (List.prefix_append _ _)]
    split
    · rfl
    · rfl
    · split
      · rfl
      · apply ih hdown.2
        intro d hd
        apply hsame
        rwa [hcons, ← List.append_assoc, ← hstep]

/-- Two trees that agree on the way are the same to whoever goes it. -/
theorem findFrom_congr (hdown : ".." ∉ parts)
    (hsame : t.AgreeAbove u (l ++ Path.meaningful parts)) :
    t.findFrom l parts = u.findFrom l parts := by
  unfold findFrom
  rw [walk_congr hdown hsame]
  cases hwalk : u.walk l parts with
  | error fault => rfl
  | ok m =>
    dsimp only
    rw [hsame m (walk_eq_ok hdown hwalk ▸ List.prefix_refl _)]

theorem findFrom_eq_ok {n : Node} (h : t.findFrom l parts = .ok (m, n)) :
    t.walk l parts = .ok m ∧ t.lookup? m = some n := by
  unfold findFrom at h
  split at h
  · cases h
  · next place hwalk =>
    split at h
    · next hlookup =>
      cases h
      exact ⟨hwalk, hlookup⟩
    · cases h

/-- All that is in a tree is also in another one. -/
def Extends (t u : FileTree) : Prop := ∀ l n, t.lookup? l = some n → u.lookup? l = some n

/-- What can be walked in a tree can be walked in one that has more. -/
theorem Extends.walk (h : t.Extends u) (hwalk : t.walk l parts = .ok m) :
    u.walk l parts = .ok m := by
  induction parts generalizing l with
  | nil => exact hwalk
  | cons p ps ih =>
    rw [FileTree.walk] at hwalk ⊢
    split at hwalk
    · cases hwalk
    · cases hwalk
    · next hdir =>
      rw [h l .dir hdir]
      split at hwalk
      · cases hwalk
      · next hshort =>
        dsimp only
        rw [if_neg hshort]
        exact ih hwalk

theorem Extends.findFrom (h : t.Extends u) {n : Node} (hfind : t.findFrom l parts = .ok (m, n)) :
    u.findFrom l parts = .ok (m, n) := by
  obtain ⟨hwalk, hlookup⟩ := findFrom_eq_ok hfind
  rw [FileTree.findFrom, h.walk hwalk]
  dsimp only
  rw [h m n hlookup]

/-- What is in a connected tree has the same above it in every larger tree. -/
theorem Extends.agreeAbove (h : t.Extends u) (ht : t.Connected) {n : Node}
    (hl : t.lookup? l = some n) :
    t.AgreeAbove u l := by
  intro d hd
  by_cases hdl : d = l
  · rw [hdl, hl, h l n hl]
  · have hdir := ht.lookup?_eq_dir (by rw [hl]; rfl) hd hdl
    rw [hdir, h d .dir hdir]

/-- Writing where nothing is takes nothing away. -/
theorem extends_write (hl : l ≠ []) (hnone : t.lookup? l = none) (bytes : List UInt8) :
    t.Extends (t.write l bytes) := by
  intro m n hm
  have hml : m ≠ l := by
    rintro rfl
    rw [hnone] at hm
    cases hm
  rw [lookup?_write _ _ _ _ hl, if_neg hml, hm]
  rfl

/-! ### Parts that mean nothing -/

/-- Parts are walked the same from a directory, whether or not there is an empty part before
them. -/
theorem walk_cons_empty (hl : t.lookup? l = some .dir) (ps : List String) :
    t.walk l ("" :: ps) = t.walk l ps := by
  rw [walk, hl]
  show t.walk (Path.stepLexically l "") ps = t.walk l ps
  rfl

/-- Before other parts, an empty part means nothing at all. -/
theorem walk_append_empty (ps : List String) {qs : List String} (hqs : qs ≠ []) :
    t.walk l (ps ++ "" :: qs) = t.walk l (ps ++ qs) := by
  obtain ⟨q, qs, rfl⟩ := List.exists_cons_of_ne_nil hqs
  rw [walk_append, walk_append]
  congr 1
  funext m
  cases hm : t.lookup? m with
  | none => simp [walk, hm]
  | some n =>
    cases n with
    | file bytes => simp [walk, hm]
    | dir => exact walk_cons_empty hm _

/-! ### Paths behind a directory -/

/-- A joined path is walked along its first part and then along its second. -/
theorem walk_joinText {dir name : String} (hdir : dir ≠ "") (hname : name.toList.head? ≠ some '/') :
    t.walk l (Path.pieces (Glob.joinText dir name)) =
      t.walk l (Path.pieces dir ++ Path.pieces name) := by
  obtain ⟨h, rfl | ⟨d, rfl⟩⟩ | ⟨h, -⟩ := Glob.joinText_cases dir hname
  · exact absurd rfl hdir
  · rw [h, Path.pieces_append, Path.pieces_append_slash, List.append_assoc, List.singleton_append,
      walk_append_empty _ (Path.pieces_ne_nil name)]
  · rw [h, Path.pieces_append]

/-- A path that can be looked for is followed piece by piece. -/
theorem find_eq {path : String} (hne : path ≠ "") (cwd : Location) :
    t.find cwd path =
      (textFault? path).elim (t.findFrom ((Path.ofString path).start cwd) (Path.pieces path))
        .error := by
  unfold find
  cases textFault? path with
  | some fault => rfl
  | none =>
    dsimp only [Option.elim]
    rw [if_neg (mt String.isEmpty_iff.mp hne)]
    congr 1
    by_cases h : Path.anchorOf path = .here <;> simp [Path.start, Path.isAbsolute, Path.ofString, h]

theorem find_eq_ok {cwd : Location} {path : String} {n : Node} (h : t.find cwd path = .ok (l, n)) :
    path ≠ "" ∧ textFault? path = none ∧
      t.findFrom ((Path.ofString path).start cwd) (Path.pieces path) = .ok (l, n) := by
  have hne : path ≠ "" := by
    rintro rfl
    cases h
  rw [find_eq hne] at h
  cases hfault : textFault? path with
  | some fault =>
    rw [hfault] at h
    cases h
  | none =>
    rw [hfault] at h
    exact ⟨hne, rfl, h⟩

/-- What a path leads to is there in a tree that has more. -/
theorem Extends.find (h : t.Extends u) {cwd : Location} {path : String} {n : Node}
    (hfind : t.find cwd path = .ok (l, n)) : u.find cwd path = .ok (l, n) := by
  obtain ⟨hne, hfault, hfrom⟩ := find_eq_ok hfind
  rw [find_eq hne, hfault]
  exact h.findFrom hfrom

theorem Extends.isDirAt (h : t.Extends u) (hdir : t.isDirAt l = .ok true) :
    u.isDirAt l = .ok true := by
  unfold FileTree.isDirAt findAt at hdir ⊢
  cases hfault : textFault? l.text with
  | some fault =>
    rw [hfault] at hdir
    exact hdir
  | none =>
    rw [hfault] at hdir
    cases hfind : t.findFrom [] l with
    | error fault =>
      simp only [hfind] at hdir
      cases fault <;> cases hdir
    | ok found =>
      obtain ⟨place, n⟩ := found
      simp only [hfind] at hdir
      simp only [h.findFrom hfind]
      exact hdir

/-- What a path behind a directory leads to: its own parts are followed from the directory, unless
it starts at the root. -/
theorem find_joinNonEmpty {cwd : Location} {dir : String} (hdir : t.find cwd dir = .ok (l, .dir))
    (path : String) :
    t.find cwd (Glob.joinNonEmpty dir path) = (textFault? (Glob.joinNonEmpty dir path)).elim
      (t.findFrom ((Path.ofString path).start l) (Path.pieces path)) .error := by
  obtain ⟨hne, hfault, hfind⟩ := find_eq_ok hdir
  obtain ⟨hwalk, hlookup⟩ := findFrom_eq_ok hfind
  unfold Glob.joinNonEmpty
  rw [if_neg (mt String.isEmpty_iff.mp hne)]
  by_cases hempty : path = ""
  · subst hempty
    rw [if_pos (by decide), hdir, hfault]
    show _ = t.findFrom l [""]
    rw [findFrom, walk_cons_empty hlookup, walk]
    dsimp only
    rw [hlookup]
  · rw [if_neg (mt String.isEmpty_iff.mp hempty)]
    by_cases hroot : path.toList.head? = some '/'
    · have hjoin : Glob.joinText dir path = path := by rw [Glob.joinText, if_pos hroot]
      have habsolute := Path.isAbsolute_ofString_iff.mpr hroot
      rw [hjoin, find_eq hempty, Path.start, Path.start, if_pos habsolute, if_pos habsolute]
    · have habsolute := Path.isAbsolute_congr (Glob.head?_joinText hne hroot)
      have hrelative : ¬(Path.ofString path).isAbsolute = true :=
        mt Path.isAbsolute_ofString_iff.mp hroot
      rw [find_eq (Glob.joinText_ne_empty hne path), Path.start, habsolute, ← Path.start, findFrom,
        walk_joinText hne hroot, walk_append, hwalk]
      rw [Path.start, if_neg hrelative]
      rfl

/-! ### Paths as they are written -/

/-- Every part of the path is a name or a parent part. -/
def IsWritten (p : Path) : Prop := ∀ part ∈ p.parts, part ≠ "" ∧ part ≠ "." ∧ '/' ∉ part.toList

/-- The parts of a written path have no slashes and mean something. -/
theorem isWritten_ofString (s : String) : IsWritten (.ofString s) := by
  intro part hpart
  obtain ⟨hpiece, hmeans⟩ := List.mem_filter.mp hpart
  obtain ⟨hne, hpoint⟩ := of_decide_eq_true hmeans
  obtain ⟨piece, hmem, rfl⟩ := List.mem_map.mp hpiece
  refine ⟨hne, hpoint, ?_⟩
  rw [String.toList_ofList]
  exact Text.notMem_of_mem_splitAt hmem

/-- Names without slashes, written with slashes between them, are the pieces. -/
theorem pieces_slashed {parts : List String} (hparts : parts ≠ [])
    (h : ∀ part ∈ parts, '/' ∉ part.toList) :
    Path.pieces (String.ofList (slashed parts)) = parts := by
  rw [Path.pieces, String.toList_ofList, slashed, Text.splitAt_join (by simpa using hparts),
    List.map_map]
  · simp [Function.comp_def]
  · intro piece hpiece
    obtain ⟨part, hpart, rfl⟩ := List.mem_map.mp hpiece
    exact h part hpart

theorem pieces_cons_slash (x : Text) :
    Path.pieces (String.ofList ('/' :: x)) = "" :: Path.pieces (String.ofList x) := by
  rw [Path.pieces, String.toList_ofList, Text.splitAt, if_pos rfl, List.map_cons, Path.pieces,
    String.toList_ofList]

/-- Two lists of names are written with a slash between them. -/
theorem slashed_append {k l : List String} (hk : k ≠ []) (hl : l ≠ []) :
    slashed (k ++ l) = slashed k ++ '/' :: slashed l := by
  induction k with
  | nil => exact absurd rfl hk
  | cons name k ih =>
    obtain ⟨n, l, rfl⟩ := List.exists_cons_of_ne_nil hl
    cases k with
    | nil => simp [slashed, Text.join]
    | cons m k =>
      have hrest := ih (List.cons_ne_nil m k)
      simp only [slashed, List.cons_append, List.map_cons, Text.join] at hrest ⊢
      rw [hrest]
      simp

/-- From a directory, slashed names are walked one by one; no names stay where they are. -/
theorem walk_slashed {parts : List String} (h : ∀ part ∈ parts, '/' ∉ part.toList)
    (hl : t.lookup? l = some .dir) :
    t.walk l (Path.pieces (String.ofList (slashed parts))) = t.walk l parts := by
  by_cases hparts : parts = []
  · subst hparts
    exact walk_cons_empty hl []
  · rw [pieces_slashed hparts h]

/-- The text of a path leads from where the path starts along its parts. -/
theorem walk_text {p : Path} (hp : IsWritten p) (hl : t.lookup? l = some .dir) :
    t.walk l (Path.pieces p.text) = t.walk l p.parts := by
  have hslash : ∀ part ∈ p.parts, '/' ∉ part.toList := fun part hpart => (hp part hpart).2.2
  unfold Path.text
  split
  · split
    · next hempty =>
      rw [List.isEmpty_iff.mp hempty]
      show t.walk l ["."] = .ok l
      rw [walk, hl]
      rfl
    · exact walk_slashed hslash hl
  · rw [pieces_cons_slash, walk_cons_empty hl, walk_slashed hslash hl]
  · rw [pieces_cons_slash, pieces_cons_slash, walk_cons_empty hl, walk_cons_empty hl,
      walk_slashed hslash hl]

theorem head?_slashed {part : String} (hpart : part ≠ "") (parts : List String) :
    (slashed (part :: parts)).head? = part.toList.head? := by
  obtain ⟨c, cs, hcs⟩ := List.exists_cons_of_ne_nil (mt String.toList_eq_nil_iff.mp hpart)
  cases parts with
  | nil => rfl
  | cons q qs =>
    rw [slashed, List.map_cons, List.map_cons, Text.join, List.append_assoc, hcs]
    rfl

/-- The text of a path starts with a slash exactly if the path starts at the root. -/
theorem head?_text {p : Path} (hp : IsWritten p) :
    p.text ≠ "" ∧ (p.text.toList.head? = some '/' ↔ p.isAbsolute = true) := by
  obtain ⟨anchor, parts⟩ := p
  cases anchor with
  | here =>
    cases parts with
    | nil => exact ⟨by decide, by decide⟩
    | cons q qs =>
      obtain ⟨hne, -, hslash⟩ := hp q List.mem_cons_self
      obtain ⟨c, cs, hcs⟩ := List.exists_cons_of_ne_nil (mt String.toList_eq_nil_iff.mp hne)
      have hhead : (slashed (q :: qs)).head? = some c := by
        rw [head?_slashed hne, hcs]
        rfl
      have htext : (Path.text ⟨.here, q :: qs⟩).toList = slashed (q :: qs) := String.toList_ofList
      constructor
      · intro h
        rw [h] at htext
        rw [← htext] at hhead
        cases hhead
      · rw [htext, hhead]
        have hc : c ≠ '/' := by
          rintro rfl
          exact hslash (hcs ▸ List.mem_cons_self)
        simp [hc, Path.isAbsolute]
  | root =>
    have htext : (Path.text ⟨.root, parts⟩).toList = '/' :: slashed parts := String.toList_ofList
    refine ⟨?_, by rw [htext]; simp [Path.isAbsolute]⟩
    intro h
    rw [h] at htext
    cases htext
  | doubleRoot =>
    have htext : (Path.text ⟨.doubleRoot, parts⟩).toList = '/' :: '/' :: slashed parts :=
      String.toList_ofList
    refine ⟨?_, by rw [htext]; simp [Path.isAbsolute]⟩
    intro h
    rw [h] at htext
    cases htext

theorem start_ofString_text {p : Path} (hp : IsWritten p) (cwd : Location) :
    (Path.ofString p.text).start cwd = p.start cwd := by
  have habsolute : (Path.ofString p.text).isAbsolute = p.isAbsolute := by
    rw [Bool.eq_iff_iff, Path.isAbsolute_ofString_iff, (head?_text hp).2]
  rw [Path.start, Path.start, habsolute]

/-- A path is found by its text as by its parts. -/
theorem find_text {p : Path} (hp : IsWritten p) {cwd : Location}
    (hstart : t.lookup? (p.start cwd) = some .dir) :
    t.find cwd p.text = (textFault? p.text).elim (t.findFrom (p.start cwd) p.parts) .error := by
  rw [find_eq (head?_text hp).1, start_ofString_text hp, findFrom, walk_text hp hstart]
  rfl

/-- A path that leads somewhere starts from a directory. -/
theorem lookup?_start {p : Path} (hp : IsWritten p) {cwd : Location} {n : Node}
    (h : t.find cwd p.text = .ok (l, n)) : t.lookup? (p.start cwd) = some .dir := by
  obtain ⟨-, -, hfind⟩ := find_eq_ok h
  obtain ⟨hwalk, -⟩ := findFrom_eq_ok hfind
  obtain ⟨q, qs, hpieces⟩ := List.exists_cons_of_ne_nil (Path.pieces_ne_nil p.text)
  rw [hpieces, start_ofString_text hp, walk] at hwalk
  split at hwalk
  · cases hwalk
  · cases hwalk
  · assumption

/-- What the path of a match leads to: its parts are followed from the directory in which it was
found. -/
theorem find_join {cwd : Location} {base : Path} (hbase : IsWritten base)
    (hdir : t.find cwd base.text = .ok (l, .dir)) (path : String) :
    t.find cwd (base.join (.ofString path)).text =
      (textFault? (base.join (.ofString path)).text).elim
      (t.findFrom ((Path.ofString path).start l) (Path.ofString path).parts) .error := by
  have hpath := isWritten_ofString path
  have hstart := lookup?_start hbase hdir
  by_cases habsolute : (Path.ofString path).isAbsolute = true
  · rw [Path.join, if_pos habsolute, find_text hpath, Path.start, Path.start, if_pos habsolute,
      if_pos habsolute]
    rw [Path.start, if_pos habsolute, lookup?_nil]
  · have hwalk : t.walk (base.start cwd) base.parts = .ok l := by
      obtain ⟨-, -, hfind⟩ := find_eq_ok hdir
      rw [← walk_text hbase hstart, ← start_ofString_text hbase]
      exact (findFrom_eq_ok hfind).1
    have hwritten : IsWritten ⟨base.anchor, base.parts ++ (Path.ofString path).parts⟩ := by
      intro part hpart
      rcases List.mem_append.mp hpart with hpart | hpart
      · exact hbase part hpart
      · exact hpath part hpart
    rw [Path.join, if_neg habsolute, find_text hwritten hstart]
    have hfrom : t.findFrom (base.start cwd) (base.parts ++ (Path.ofString path).parts) =
        t.findFrom l (Path.ofString path).parts := by
      rw [findFrom, walk_append, hwalk]
      rfl
    have hl : (Path.ofString path).start l = l := if_neg habsolute
    rw [hl, ← hfrom]
    rfl

end FileTree

end StyleGuide
