import StyleGuide.Files.Pattern
import StyleGuide.Files.Tree

/-!
# Finding files by pattern

A pattern for paths is followed part by part through the file tree. A part is a plain name, a
pattern for names, or `**`, which leads to a directory and all that is below it. Hidden names,
those that start with a point, are found only by a part that starts with a point itself.
Matches are written the way the pattern is.

What `**` matches first is nothing at all, which stands for the directory before it. There are
two readings of this match: that it is given only if there is such a directory, and that it is
given without looking. The second one is meant here, so that `nope/**` has the match `nope/` in a
tree without a `nope`, and whoever needs a file or a directory has to ask for it.
-/

namespace StyleGuide.Glob

def joinText (dir name : String) : String :=
  if name.toList.head? = some '/' then name
  else if dir.isEmpty || dir.toList.getLast? = some '/' then dir ++ name
  else dir ++ "/" ++ name

/-- A path below another one, either of which may be empty. -/
def joinNonEmpty (dir name : String) : String :=
  if dir.isEmpty then name else if name.isEmpty then dir else joinText dir name

def isHidden (name : String) : Bool := name.toList.head? = some '.'

def isPattern (s : String) : Bool := Pattern.isPattern s.toList

inductive Step where
  | name (s : String)
  | pattern (s : String)
  | below
  deriving DecidableEq, Repr

def Step.ofPart (part : String) : Step :=
  if part = "**" then .below else if isPattern part then .pattern part else .name part

/-- The directory written before the first part with a pattern: slashes at its end are not
part of it, unless it has nothing else. -/
def leadOf (before : List String) : String :=
  if before.isEmpty then ""
  else
    let written := slashed before ++ ['/']
    let kept := (written.reverse.dropWhile (· == '/')).reverse
    String.ofList (if kept.isEmpty then written else kept)

/-- The steps after the lead. Empty parts between slashes mean nothing, but one at the end
asks for a directory. -/
def stepsOf (parts : List String) : List Step :=
  ((parts.dropLast.filter fun p => p ≠ "") ++ parts.getLast?.toList).map Step.ofPart

/-- The names to which a step leads from a directory. Before the last step only directories
count. The empty name that `**` leads to does not ask for the directory to be there. -/
def Step.names (t : FileTree) (cwd : Location) (dir : String) (isLast : Bool) :
    Step → List String
  | .name s =>
    if s.isEmpty then (if t.isDir cwd dir then [s] else [])
    else if t.pathExists cwd (joinNonEmpty dir s) then [s] else []
  | .pattern s =>
    let tokens := Pattern.parse s.toList
    ((t.list cwd dir).filter fun (found, n) =>
      (isLast || n == .dir) && (isHidden s || !isHidden found)
        && Pattern.fits tokens found.toList).map (·.1)
  | .below =>
    "" :: ((t.listBelow cwd dir).filter fun (names, n) =>
      (isLast || n == .dir) && names.all (!isHidden ·)).map fun (names, _) =>
        String.ofList (slashed names)

def follow (t : FileTree) (cwd : Location) (root : String) : List Step → String → List String
  | [], path => [path]
  | step :: steps, path =>
    (step.names t cwd (joinNonEmpty root path) steps.isEmpty).flatMap fun name =>
      follow t cwd root steps (joinText path name)

/-- The parts of a pattern before the first one that is no plain name. -/
def plainParts (pattern : String) : List String :=
  (Path.pieces pattern).takeWhile (!isPattern ·)

/-- Why the matches of a pattern cannot be looked for: the directory that is listed first has a
null character in its path. -/
def fault? (root pattern : String) : Option FileFault :=
  if isPattern pattern && (joinNonEmpty root (leadOf (plainParts pattern))).toList.contains '\x00'
  then some .nullCharacter
  else none

/-- The matches of a pattern in a directory, in no particular order. -/
def matchesOf (t : FileTree) (cwd : Location) (root pattern : String) : List String :=
  let parts := Path.pieces pattern
  let found :=
    if isPattern pattern then
      let before := plainParts pattern
      follow t cwd root (stepsOf (parts.drop before.length)) (leadOf before)
    else
      let path := joinNonEmpty root pattern
      let ok := if parts.getLast? = some "" then t.isDir cwd path else t.pathExists cwd path
      if ok then [pattern] else []
  found.filter (· ≠ "")

end StyleGuide.Glob
