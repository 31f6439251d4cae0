import StyleGuide.Files.Path
import StyleGuide.Text.Utf8

/-!
# The file tree

What is on the disk, as far as a run is concerned: directories, and files with their bytes, by
location. Paths are followed part by part as the system does it, so that `..` needs a
directory to go up from. There are limits to the length of names and paths, and no path has a
null character in it.

There are no links in the tree, neither symbolic nor hard ones: a place has one location, and
going up leads back to the directory that was come from. Only for such trees is the location
that a path has by its parts alone (`Path.normalize`) the place that the system resolves it to,
as a writer takes it to be for its output directory.
-/

namespace StyleGuide

inductive Node where
  | dir
  | file (bytes : List UInt8)
  deriving DecidableEq, Repr

/-- Directories and files by location. The root is always a directory. -/
structure FileTree where
  entries : List (Location × Node) := []
  deriving DecidableEq, Repr, Inhabited

inductive FileFault where
  | missing (path : String)
  | isDirectory
  | notDirectory
  | occupied
  /-- A name or a path is longer than the system allows. -/
  | tooLong
  /-- There is a null character in a path. -/
  | nullCharacter
  deriving DecidableEq, Repr

namespace FileTree

def lookup? (t : FileTree) (l : Location) : Option Node :=
  if l.isEmpty then some .dir else (t.entries.find? fun e => e.1 == l).map (·.2)

/-- Put something at a location, in place of what was there. -/
def put (t : FileTree) (l : Location) (n : Node) : FileTree :=
  ⟨insert t.entries⟩
where
  /-- The entries with the one of the location replaced or added. -/
  insert : List (Location × Node) → List (Location × Node)
    | [] => [(l, n)]
    | e :: es => if e.1 = l then (l, n) :: es else e :: insert es

/-- What is put at a location below the root is found there, and all else stays as it is. -/
theorem lookup?_put (t : FileTree) (l m : Location) (n : Node) (hl : l ≠ []) :
    (t.put l n).lookup? m = if m = l then some n else t.lookup? m := by
  obtain ⟨entries⟩ := t
  simp only [put, lookup?]
  by_cases hm : m = []
  · simp [hm, Ne.symm hl]
  · simp only [List.isEmpty_iff, hm, if_false]
    induction entries with
    | nil =>
      by_cases h : m = l
      · simp [put.insert, h]
      · simp [put.insert, h, Ne.symm h]
    | cons e es ih =>
      obtain ⟨place, node⟩ := e
      rw [put.insert]
      by_cases hp : place = l
      · by_cases h : m = l
        · simp [hp, h]
        · simp [hp, h, Ne.symm h]
      · rw [if_neg hp]
        by_cases hn : place = m
        · have : m ≠ l := fun h => hp (hn.trans h)
          simp [hn, this]
        · have hb : (place == m) = false := by simpa using hn
          simp only [List.find?_cons, hb]
          exact ih

/-- Make the directories from the root down to a location, where nothing is. -/
def makeParents (t : FileTree) (l : Location) : FileTree :=
  ((List.range l.length).map fun k => l.take (k + 1)).foldl
    (fun t d => if (t.lookup? d).isSome then t else t.put d .dir) t

/-- Write a file, with the directories above it. -/
def write (t : FileTree) (l : Location) (bytes : List UInt8) : FileTree :=
  (t.makeParents l.dropLast).put l (.file bytes)

/-! ### Following paths -/

inductive WalkFault where
  | missing
  | notDirectory
  | tooLong
  | nullCharacter
  deriving DecidableEq, Repr

/-- The most bytes that a name may have. -/
def maxNameLength : Nat := 255

/-- The most bytes that a path may have. -/
def maxPathLength : Nat := 4095

def isTooLong (name : String) : Bool := maxNameLength < name.utf8ByteSize

/-- What is wrong with a path whatever the files are. -/
def textFault? (path : String) : Option WalkFault :=
  if path.toList.contains '\x00' then some .nullCharacter
  else if maxPathLength < path.utf8ByteSize then some .tooLong
  else none

/-- Go from a location along the parts of a path. Every part needs a directory to start from;
the last one may lead to a place where nothing is. -/
def walk (t : FileTree) (l : Location) : List String → Except WalkFault Location
  | [] => .ok l
  | part :: parts =>
    match t.lookup? l with
    | none => .error .missing
    | some (.file _) => .error .notDirectory
    | some .dir =>
      if isTooLong part then .error .tooLong else t.walk (Path.stepLexically l part) parts

/-- What some parts lead to from a location, and where that is. -/
def findFrom (t : FileTree) (l : Location) (parts : List String) :
    Except WalkFault (Location × Node) :=
  match t.walk l parts with
  | .error fault => .error fault
  | .ok place =>
    match t.lookup? place with
    | some n => .ok (place, n)
    | none => .error .missing

def find (t : FileTree) (cwd : Location) (path : String) : Except WalkFault (Location × Node) :=
  match textFault? path with
  | some fault => .error fault
  | none =>
    if path.isEmpty then .error .missing
    else t.findFrom (if Path.anchorOf path = .here then cwd else []) (Path.pieces path)

/-- What is at a location, following its names from the root. -/
def findAt (t : FileTree) (l : Location) : Except WalkFault (Location × Node) :=
  match textFault? l.text with
  | some fault => .error fault
  | none => t.findFrom [] l

/-- What was found is a directory. What cannot be found is none, unless it is too long even to
look for. -/
def isDirIn : Except WalkFault (Location × Node) → Except FileFault Bool
  | .ok (_, n) => .ok (n == .dir)
  | .error .tooLong => .error .tooLong
  | .error _ => .ok false

/-- What was found is a file. What cannot be found is none, unless it is too long even to look
for. -/
def isFileIn : Except WalkFault (Location × Node) → Except FileFault Bool
  | .ok (_, n) => .ok (n != .dir)
  | .error .tooLong => .error .tooLong
  | .error _ => .ok false

def isDirAt (t : FileTree) (l : Location) : Except FileFault Bool := isDirIn (t.findAt l)

/-- The bytes of what was found, if it is a file; `path` is how it was asked for. -/
def bytesOf (path : String) : Except WalkFault (Location × Node) → Except FileFault (List UInt8)
  | .ok (_, .file bytes) => .ok bytes
  | .ok (_, .dir) => .error .isDirectory
  | .error .missing => .error (.missing path)
  | .error .notDirectory => .error .notDirectory
  | .error .tooLong => .error .tooLong
  | .error .nullCharacter => .error .nullCharacter

def readAt (t : FileTree) (l : Location) : Except FileFault (List UInt8) :=
  bytesOf l.text (t.findAt l)

def pathExists (t : FileTree) (cwd : Location) (path : String) : Bool :=
  (t.find cwd path).toOption.isSome

def isDir (t : FileTree) (cwd : Location) (path : String) : Bool :=
  match t.find cwd path with
  | .ok (_, .dir) => true
  | _ => false

def isFile (t : FileTree) (cwd : Location) (path : String) : Except FileFault Bool :=
  isFileIn (t.find cwd path)

def read (t : FileTree) (cwd : Location) (path : String) : Except FileFault (List UInt8) :=
  bytesOf path (t.find cwd path)

/-- The names in a directory, with what they name; none if there is no such directory. -/
def list (t : FileTree) (cwd : Location) (path : String) : List (String × Node) :=
  match t.find cwd path with
  | .ok (l, .dir) => t.entries.filterMap fun (place, n) =>
      match place.getLast? with
      | some name => if place.dropLast = l then some (name, n) else none
      | none => none
  | _ => []

/-- All below a directory, by the names that lead there from it. -/
def listBelow (t : FileTree) (cwd : Location) (path : String) : List (List String × Node) :=
  match t.find cwd path with
  | .ok (l, .dir) => t.entries.filterMap fun (place, n) =>
      if l.isPrefixOf place ∧ l.length < place.length then some (place.drop l.length, n)
      else none
  | _ => []

/-! ### Making directories -/

/-- Make the directory of a path in the one above it. What is there already has to be a
directory. -/
def makeDir (t : FileTree) (cwd : Location) (p : Path) : Except FileFault Unit × FileTree :=
  match (textFault? p.text).elim (t.walk (p.start cwd) p.parts) .error with
  | .error .missing => (.error (.missing p.text), t)
  | .error .notDirectory => (.error .notDirectory, t)
  | .error .tooLong => (.error .tooLong, t)
  | .error .nullCharacter => (.error .nullCharacter, t)
  | .ok l =>
    match t.lookup? l with
    | none => (.ok (), t.put l .dir)
    | some .dir => (.ok (), t)
    | some (.file _) => (.error .occupied, t)

/-- Make the directory of the first `n` parts of a path, after those above it if they are
missing. A directory that is made stays, even if one below it cannot be made. -/
def makeDirs (t : FileTree) (cwd : Location) (p : Path) :
    (n : Nat) → Except FileFault Unit × FileTree
  | 0 => (.ok (), t)
  | n + 1 =>
    let head : Path := ⟨p.anchor, p.parts.take (n + 1)⟩
    match t.makeDir cwd head with
    | (.error (.missing _), _) =>
      match t.makeDirs cwd p n with
      | (.ok (), t') => t'.makeDir cwd head
      | failed => failed
    | result => result

end FileTree

/-- A text file as it is read: strictly decoded, every line end a newline. -/
def readText (bytes : List UInt8) : Except Utf8.Fault Text :=
  (Utf8.decode bytes).map Text.unifyNewlines

end StyleGuide
