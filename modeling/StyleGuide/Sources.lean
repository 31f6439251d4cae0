import StyleGuide.Fault
import StyleGuide.Files.Glob
import StyleGuide.Tag.Reader

/-!
# Source files

Which files a run reads, in which order, and what it finds in them. Files come in the order of
the patterns that match them and, within a pattern, in the order of their matches as texts; a
file that two patterns match is read once.
-/

namespace StyleGuide

/-- Where a run takes place: the files, the working directory and the home directory. -/
structure Workspace where
  tree : FileTree := {}
  cwd : Location
  home : Location
  deriving DecidableEq, Repr

namespace Workspace

/-- There is a file at a path, unless the path is too long even to look. -/
def checkFile (ws : Workspace) (p : Path) : Except FileFault Bool := ws.tree.isFile ws.cwd p.text

def isFile (ws : Workspace) (p : Path) : Bool := (ws.checkFile p).toOption.getD false

def read (ws : Workspace) (p : Path) : Except FileFault (List UInt8) :=
  ws.tree.read ws.cwd p.text

def glob (ws : Workspace) (base : Path) (pattern : String) : List String :=
  Glob.matchesOf ws.tree ws.cwd base.text pattern

end Workspace

namespace Sources

/-! ### Expanding patterns -/

/-- Add the file of a match, unless it is there already or there is no such file. -/
def addMatch (isFile : Path → Bool) (base : Path) (found : List Path) (m : String) :
    List Path :=
  let p := base.join (.ofString m)
  if found.contains p || !isFile p then found else found ++ [p]

def sortMatches (ms : List String) : List String := ms.mergeSort fun a b => decide (a ≤ b)

/-- The files that match some patterns, where `glob` finds the matches of one pattern. -/
def expandWith (glob : String → List String) (isFile : Path → Bool) (base : Path)
    (patterns : List String) : List Path :=
  patterns.foldl (fun found p => (sortMatches (glob p)).foldl (addMatch isFile base) found) []

/-- Why the files that match a pattern below a directory cannot be told. -/
def patternFault? (ws : Workspace) (base : Path) (pattern : String) : Option FileFault :=
  (Glob.fault? base.text pattern).or <|
    (sortMatches (ws.glob base pattern)).findSome? fun m =>
      match ws.checkFile (base.join (.ofString m)) with
      | .error fault => some fault
      | .ok _ => none

def expand (ws : Workspace) (base : Path) (patterns : List String) :
    Except FileFault (List Path) :=
  match patterns.findSome? (patternFault? ws base) with
  | some fault => .error fault
  | none => .ok (expandWith (ws.glob base) ws.isFile base patterns)

def patternEvents (ws : Workspace) (base : Path) (pattern : String) : List Event :=
  if (Glob.fault? base.text pattern).isNone && (ws.glob base pattern).isEmpty then
    [.unmatchedPattern pattern]
  else []

/-- What there is to report about some patterns, up to the first fault. -/
def expandEvents (ws : Workspace) (base : Path) (patterns : List String) : List Event :=
  Event.untilFault (patterns.map fun p =>
    (patternEvents ws base p, (patternFault? ws base p).isSome))

/-! ### Reading files -/

/-- How files are read. The number of workers makes no difference, but has to be a number. -/
structure Reading where
  registry : Registry := .standard
  options : Options := .none
  workers : Json := .int 1

/-- The fragments of a file; none if the file is no text. -/
def readSource (r : Reading) (ws : Workspace) (p : Path) :
    Except Fault (Option (List Fragment)) := do
  let bytes ← (ws.read p).mapError Fault.file
  match readText bytes with
  | .ok text =>
    let fs ← (Fragment.ofSource r.registry r.options p.text text).mapError Fault.shape
    return some fs
  | .error _ => return none

def readSourceEvents (r : Reading) (ws : Workspace) (p : Path) : List Event :=
  match ws.read p with
  | .error _ => []
  | .ok bytes =>
    match readText bytes with
    | .error _ => [.skippedFile p.text]
    | .ok text =>
      Fragment.ofSourceEvents r.registry r.options p.text text ++
        match Fragment.ofSource r.registry r.options p.text text with
        | .ok fs => [.documentedBlocks p.text fs.length]
        | .error _ => []

structure Extraction where
  fragments : List Fragment
  filesRead : Nat
  filesSkipped : Nat

/-- The fragments of some files, in the order of the files. A file that is no text is
skipped. -/
def load (r : Reading) (ws : Workspace) (paths : List Path) : Except Fault Extraction := do
  if !r.workers.isNumber then throw (.shape .notANumber)
  let perFile ← paths.mapM (readSource r ws)
  let texts := perFile.filterMap id
  return ⟨texts.flatten, texts.length, perFile.length - texts.length⟩

/-- What there is to report about some files as a whole, up to the first that cannot be
read. -/
def loadEvents (r : Reading) (ws : Workspace) (paths : List Path) : List Event :=
  if !r.workers.isNumber then []
  else
    Event.untilFault (paths.map fun p =>
      (readSourceEvents r ws p, (readSource r ws p).toOption.isNone)) ++
    match load r ws paths with
    | .ok x => [.extracted x.filesRead x.filesSkipped x.fragments.length]
    | .error _ => []

end Sources

end StyleGuide
