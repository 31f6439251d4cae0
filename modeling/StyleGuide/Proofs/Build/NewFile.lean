import StyleGuide.Proofs.Files.Matches
import StyleGuide.Sources

/-!
# A file more

What a workspace shows if one file is written where nothing was. Every file that was there is there
still, and is matched by the same patterns (`isFile_withFile`, `read_withFile`,
`mem_glob_withFile`). A match that is a file only now leads to the new file
(`read_of_isFile_withFile`), however the match is written.
-/

namespace StyleGuide

open Path FileTree

/-! ### Files behind a base directory -/

section Matched

variable {t u : FileTree} {cwd l : Location} {base : Path} {m : String}

theorem down_parts (h : ".." ∉ pieces m) : ".." ∉ (ofString m).parts :=
  fun hmem => h (List.mem_filter.mp hmem).1

theorem start_append_parts (l : Location) (m : String) :
    (ofString m).start l ++ meaningful (ofString m).parts = tip l m :=
  congrArg _ (meaningful_meaningful _)

/-- What a match leads to is at the place that its names tell. -/
theorem lookup?_tip_of_find (hbase : IsWritten base) (hdir : t.find cwd base.text = .ok (l, .dir))
    (hm : ".." ∉ pieces m) {place : Location} {n : Node}
    (h : t.find cwd (base.join (.ofString m)).text = .ok (place, n)) :
      t.lookup? (tip l m) = some n := by
  obtain ⟨-, hfault, -⟩ := find_eq_ok h
  rw [find_join hbase hdir, hfault] at h
  obtain ⟨hwalk, hlookup⟩ := findFrom_eq_ok h
  rwa [walk_eq_ok (down_parts hm) hwalk, start_append_parts] at hlookup

/-- Two trees that agree on the way to a match are the same to whoever follows it. -/
theorem find_join_congr (hbase : IsWritten base) (ht : t.find cwd base.text = .ok (l, .dir))
    (hu : u.find cwd base.text = .ok (l, .dir)) (hm : ".." ∉ pieces m)
    (hagree : t.AgreeAbove u (tip l m)) :
    t.find cwd (base.join (.ofString m)).text = u.find cwd (base.join (.ofString m)).text := by
  rw [find_join hbase ht, find_join hbase hu,
    findFrom_congr (down_parts hm) (by rwa [start_append_parts])]

end Matched

theorem FileTree.isDir_iff {t : FileTree} {cwd : Location} {path : String} :
    t.isDir cwd path = true ↔ ∃ l, t.find cwd path = .ok (l, .dir) := by
  unfold FileTree.isDir
  split
  · next l hfind => exact ⟨fun _ => ⟨l, hfind⟩, fun _ => rfl⟩
  · next hnot => exact ⟨fun h => absurd h Bool.false_ne_true,
      fun ⟨l, hfind⟩ => absurd hfind (hnot l)⟩

/-- A file is there exactly if the path leads to one. -/
theorem Workspace.isFile_iff {ws : Workspace} {p : Path} :
    ws.isFile p = true ↔ ∃ l bytes, ws.tree.find ws.cwd p.text = .ok (l, .file bytes) := by
  unfold Workspace.isFile Workspace.checkFile FileTree.isFile
  cases hfind : ws.tree.find ws.cwd p.text with
  | error fault => cases fault <;> simp [isFileIn, Except.toOption]
  | ok found =>
    obtain ⟨l, n⟩ := found
    cases n <;> simp [isFileIn, Except.toOption]

/-! ### The new file -/

def Workspace.withFile (ws : Workspace) (place : Location) (bytes : List UInt8) : Workspace :=
  { ws with tree := ws.tree.write place bytes }

/-- A file can be added at a place: nothing is there yet, and nothing is in the way. -/
structure Workspace.HasRoom (ws : Workspace) (place : Location) : Prop where
  sound : ws.tree.Sound
  named : IsNamed place
  below_root : place ≠ []
  absent : ws.tree.lookup? place = none
  free : ws.tree.FreeAt place

namespace Workspace.HasRoom

variable {ws : Workspace} {place l : Location} {base p : Path} {m : String}

/-- A new file takes nothing away. -/
theorem extends_withFile (h : ws.HasRoom place) (bytes : List UInt8) :
    ws.tree.Extends (ws.withFile place bytes).tree :=
  extends_write h.below_root h.absent bytes

theorem sound_withFile (h : ws.HasRoom place) (bytes : List UInt8) :
    (ws.withFile place bytes).tree.Sound :=
  h.sound.write h.named h.below_root h.free bytes

/-- Files that were there stay. -/
theorem isFile_withFile (h : ws.HasRoom place) (bytes : List UInt8) (hfile : ws.isFile p = true) :
    (ws.withFile place bytes).isFile p = true := by
  obtain ⟨k, old, hfind⟩ := isFile_iff.mp hfile
  exact isFile_iff.mpr ⟨k, old, (h.extends_withFile bytes).find hfind⟩

/-- What was there is read as before. -/
theorem read_withFile (h : ws.HasRoom place) (bytes : List UInt8) (hfile : ws.isFile p = true) :
    (ws.withFile place bytes).read p = ws.read p := by
  obtain ⟨k, old, hfind⟩ := isFile_iff.mp hfile
  have hfind' : (ws.withFile place bytes).tree.find ws.cwd p.text = .ok (k, .file old) :=
    (h.extends_withFile bytes).find hfind
  show bytesOf p.text ((ws.withFile place bytes).tree.find ws.cwd p.text) =
    bytesOf p.text (ws.tree.find ws.cwd p.text)
  rw [hfind', hfind]

/-- Above a file that was there, nothing has changed. -/
theorem agreeAbove_tip (h : ws.HasRoom place) (bytes : List UInt8) (hbase : IsWritten base)
    (hdir : ws.tree.find ws.cwd base.text = .ok (l, .dir)) (hm : ".." ∉ pieces m)
    (hfile : ws.isFile (base.join (.ofString m)) = true) :
    ws.tree.AgreeAbove (ws.withFile place bytes).tree (tip l m) := by
  obtain ⟨k, old, hfind⟩ := isFile_iff.mp hfile
  exact (h.extends_withFile bytes).agreeAbove h.sound.connected
    (lookup?_tip_of_find hbase hdir hm hfind)

/-- A file that was there is matched now if it was matched before. -/
theorem mem_glob_withFile (h : ws.HasRoom place) (bytes : List UInt8) (hbase : IsWritten base)
    (hdir : ws.tree.find ws.cwd base.text = .ok (l, .dir)) {pattern : String}
    (hpattern : ".." ∉ pieces pattern) (hfile : ws.isFile (base.join (.ofString m)) = true) :
    m ∈ ws.glob base pattern ↔ m ∈ (ws.withFile place bytes).glob base pattern := by
  have hsound := h.sound_withFile bytes
  have hdir' := (h.extends_withFile bytes).find hdir
  constructor
  · intro hmem
    have hm := Glob.down_of_mem_matchesOf hpattern h.sound hmem
    exact Glob.mem_matchesOf_congr hpattern h.sound hsound.distinct hdir hdir'
      (h.agreeAbove_tip bytes hbase hdir hm hfile) hmem
  · intro hmem
    have hm := Glob.down_of_mem_matchesOf hpattern hsound hmem
    exact Glob.mem_matchesOf_congr hpattern hsound h.sound.distinct hdir' hdir
      (h.agreeAbove_tip bytes hbase hdir hm hfile).symm hmem

/-- A match that was no file and is one now leads to the new file. -/
theorem read_of_isFile_withFile (h : ws.HasRoom place) {bytes : List UInt8} (hbase : IsWritten base)
    (hdir : ws.tree.find ws.cwd base.text = .ok (l, .dir)) (hm : ".." ∉ pieces m)
    (hold : ws.isFile (base.join (.ofString m)) = false)
    (hnew : (ws.withFile place bytes).isFile (base.join (.ofString m)) = true) :
    (ws.withFile place bytes).read (base.join (.ofString m)) = .ok bytes := by
  have hextends := h.extends_withFile bytes
  have hdir' := hextends.find hdir
  obtain ⟨k, content, hfind⟩ := isFile_iff.mp hnew
  have hlookup := lookup?_tip_of_find hbase hdir' hm hfind
  have hread : (ws.withFile place bytes).read (base.join (.ofString m)) = .ok content := by
    rw [Workspace.read, FileTree.read, hfind]
    rfl
  rw [hread]
  rw [withFile, lookup?_write _ _ _ _ h.below_root] at hlookup
  split at hlookup
  · cases hlookup
    rfl
  · -- elsewhere the file was there before, and so was all that leads to it
    cases hbefore : ws.tree.lookup? (tip l m) with
    | none =>
      rw [hbefore, Option.none_or] at hlookup
      split at hlookup <;> cases hlookup
    | some n =>
      rw [hbefore, Option.some_or] at hlookup
      cases hlookup
      have hagree := hextends.agreeAbove h.sound.connected hbefore
      have hthere : ws.isFile (base.join (.ofString m)) = true :=
        isFile_iff.mpr ⟨k, content, (find_join_congr hbase hdir hdir' hm hagree).trans hfind⟩
      rw [hold] at hthere
      cases hthere

end Workspace.HasRoom

end StyleGuide
