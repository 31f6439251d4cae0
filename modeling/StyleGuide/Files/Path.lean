import StyleGuide.Text.Quoted

/-!
# Paths

A path as it is written: where it starts and its parts. Parts that are empty or a single point
mean nothing and are dropped; parent parts (`..`) stay, because what they lead to depends on
the files. A location is a place in the file tree, given by the names from the root down.
-/

namespace StyleGuide

/-- The names from the root to a place in the file tree. -/
abbrev Location := List String

def slashed (names : List String) : Text := Text.join ['/'] (names.map String.toList)

def Location.text (l : Location) : String := String.ofList ('/' :: slashed l)

/-- Where a path starts: here, at the root, or at the root written with two slashes. -/
inductive Anchor where
  | here
  | root
  | doubleRoot
  deriving DecidableEq, Repr

/-- A path as it is written. -/
structure Path where
  anchor : Anchor
  parts : List String
  deriving DecidableEq, Repr

namespace Path

def pieces (s : String) : List String := (Text.splitAt '/' s.toList).map String.ofList

def anchorOf (s : String) : Anchor :=
  match s.toList with
  | '/' :: '/' :: '/' :: _ => .root
  | '/' :: '/' :: _ => .doubleRoot
  | '/' :: _ => .root
  | _ => .here

def ofString (s : String) : Path :=
  ⟨anchorOf s, (pieces s).filter fun p => p ≠ "" ∧ p ≠ "."⟩

def isAbsolute (p : Path) : Bool := p.anchor ≠ .here

/-- The place from which a path leads on, seen from another place. -/
def start (p : Path) (cwd : Location) : Location := if p.isAbsolute then [] else cwd

def text (p : Path) : String :=
  match p.anchor with
  | .here => if p.parts.isEmpty then "." else String.ofList (slashed p.parts)
  | .root => String.ofList ('/' :: slashed p.parts)
  | .doubleRoot => String.ofList ('/' :: '/' :: slashed p.parts)

/-- The second path as seen from the first; one that starts at the root stands for itself. -/
def join (p q : Path) : Path := if q.isAbsolute then q else ⟨p.anchor, p.parts ++ q.parts⟩

def ofLocation (l : Location) : Path := ⟨.root, l⟩

/-- One part of a path applied to a location, by its name alone: a parent part goes up, and
stays at the root. -/
def stepLexically (l : Location) (part : String) : Location :=
  if part = ".." then l.dropLast
  else if part = "" ∨ part = "." then l
  else l ++ [part]

/-- The location that a path has by its parts alone, seen from another location. -/
def normalize (cwd : Location) (p : Path) : Location :=
  p.parts.foldl stepLexically (p.start cwd)

def shown (p : Path) : String := s!"PosixPath({quote p.text})"

end Path

end StyleGuide
