import StyleGuide.Text.Blank
import StyleGuide.Text.Word

/-!
# Comment markers

How a line of source code shows that it is, opens or closes a comment, and what is left of
the line once its markers are taken away.
-/

namespace StyleGuide.Comment

open Text

/-- Decoration at the start of a comment line: blanks and stars. -/
def isDecoration (c : Char) : Bool := isBlank c || c == '*'

/-- The text without decoration at its start and blanks at its end. -/
def normalize (t : Text) : Text := trimEnd (t.dropWhile isDecoration)

def afterMarker? (marker line : Text) : Option Text :=
  let t := trimStart line
  if marker.isPrefixOf t then some (t.drop marker.length) else none

def isLineComment (line : Text) : Bool := (afterMarker? ['/', '/'] line).isSome

def lineCommentText (line : Text) : Text := (afterMarker? ['/', '/'] line).getD line

def opensBlock (line : Text) : Bool := (afterMarker? ['/', '*'] line).isSome

/-- A line that closes a block comment. A line comment never does. -/
def closesBlock (line : Text) : Bool := !isLineComment line && has ['*', '/'] line

/-- The line without its first opening marker, the blanks before it, and its first closing
marker. -/
def stripMarkers (line : Text) : Text :=
  let opened := match cut? ['/', '*'] line with
    | some (before, after) => trimEnd before ++ after
    | none => line
  eraseFirst ['*', '/'] opened

/-- The tag that announces a property declaration. -/
def propertyTag : Text := "@prop".toList

/-- The property tag occurs as a whole word. -/
def announcesProperty : Text → Bool
  | [] => false
  | c :: cs =>
    (propertyTag.isPrefixOf (c :: cs) &&
      !((c :: cs).drop propertyTag.length).head?.any isWord) || announcesProperty cs

def parenBalance (line : Text) : Int := (line.count '(' : Int) - (line.count ')' : Int)

end StyleGuide.Comment
