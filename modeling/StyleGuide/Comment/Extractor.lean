import StyleGuide.Comment.Marker
import StyleGuide.Event
import StyleGuide.Json.Equality
import StyleGuide.Place

/-!
# Comment blocks of a source file

The extractor reads a file line by line and groups its comment lines into blocks. A comment
that documents a property takes the declaration behind it along, which may run over several
lines:

    /**
     * @prop Size of the button | 'md'
     */
    size: PropTypes.oneOf([
      'sm',
      'md',
    ]),

After every part of such a declaration stands a separator, by which the property can be taken
apart again.
-/

namespace StyleGuide

open Text

/-- A run of comment lines of one file, without decoration, and the lines it comes from. -/
structure CommentBlock where
  text : Text
  start : Int
  stop : Int
  file : Json := .str ""
  deriving DecidableEq

def CommentBlock.place (block : CommentBlock) : Place :=
  ⟨block.file, .int block.start, .int block.stop⟩

namespace Comment

/-- Stands between the parts of a property declaration. -/
def separator : Text := "split-here".toList

def separatorLine : Text := ['\n', ' '] ++ separator ++ [' ', '\n']

/-- Where the extractor is: outside of comments; in a run of line comments; in a block comment
that has or has not announced a property; behind the latter, in the declaration; or in a
list of options, in parentheses, of the declaration. -/
inductive Phase where
  | idle
  | lineComment
  | blockComment
  | propertyComment
  | declaration
  | options
  deriving DecidableEq, Repr

structure Extractor where
  /-- The file that is read, as the caller names it. -/
  file : Json := .str ""
  phase : Phase := .idle
  /-- The blocks found so far. -/
  blocks : List CommentBlock := []
  /-- The pieces of the block that is still open. -/
  parts : List Text := []
  /-- The line on which the open block started. -/
  start : Nat := 0
  /-- The parentheses still open in a list of options. -/
  depth : Int := 0
  /-- The lines read so far. -/
  line : Nat := 0
  deriving DecidableEq

namespace Extractor

def push (x : Extractor) (part : Text) : Extractor := { x with parts := x.parts ++ [part] }

/-- Close the open block at the given line. A block without text is not kept. -/
def emitAt (x : Extractor) (stop : Int) : Extractor :=
  let text := normalize x.parts.flatten
  let found : List CommentBlock := if text.isEmpty then [] else [⟨text, x.start, stop, x.file⟩]
  { x with blocks := x.blocks ++ found, parts := [], depth := 0, phase := .idle }

def emit (x : Extractor) : Extractor := x.emitAt x.line

/-- A part of a declaration. Open parentheses start a list of options, a comma ends the
declaration. -/
def declarationCode (x : Extractor) (code : Text) : Extractor :=
  let x := x.push (stripMarkers code)
  if 0 < parenBalance code then
    { x.push separatorLine with depth := parenBalance code, phase := .options }
  else if code.contains ',' && !isLineComment code then x.emit
  else x.push separatorLine

/-- A piece of a block comment; `lead` stands before its text. It may announce a property. -/
def addComment (x : Extractor) (lead comment : Text) : Extractor :=
  let x := x.push (lead ++ stripMarkers comment)
  if announcesProperty comment then { x with phase := .propertyComment } else x

/-- The end of a block comment. If it has announced a property, the code behind the closing marker
belongs to the declaration. -/
def endComment (x : Extractor) (code : Text) : Extractor :=
  if x.phase = .propertyComment then
    let x := { x.push separatorLine with phase := .declaration }
    if (trim code).isEmpty then x else x.declarationCode code
  else x.emit

/-- A line inside a block comment; `lead` stands before its text. -/
def blockCommentLine (x : Extractor) (lead line : Text) : Extractor :=
  if closesBlock line then
    let (comment, code) := cut ['*', '/'] line
    (x.addComment lead comment).endComment code
  else x.addComment lead line

def idleLine (x : Extractor) (line : Text) : Extractor :=
  if opensBlock line then
    { x with start := x.line, parts := [], phase := .blockComment }.blockCommentLine [] line
  else if isLineComment line then
    { x with start := x.line, parts := [lineCommentText line], phase := .lineComment }
  else x

def lineCommentLine (x : Extractor) (line : Text) : Extractor :=
  if isLineComment line then x.push ('\n' :: lineCommentText line)
  else x.emit.idleLine line

/-- A line of a declaration. A new comment ends it, and so does the end of the enclosing
object, in which case the declaration ended with the line before. -/
def declarationLine (x : Extractor) (line : Text) : Extractor :=
  if opensBlock line then x.emit.idleLine line
  else if (trim line).head? = some '\x7d' then
    let parts := if x.parts.getLast? = some separatorLine then x.parts.dropLast else x.parts
    { x with parts }.emitAt ((x.line : Int) - 1)
  else x.declarationCode line

def optionsLine (x : Extractor) (line : Text) : Extractor :=
  let x := { x.push line with depth := x.depth + parenBalance line }
  if x.depth ≤ 0 then x.emit else x.push separatorLine

def feed (x : Extractor) (line : Text) : Extractor :=
  let x := { x with line := x.line + 1 }
  match x.phase with
  | .idle => x.idleLine line
  | .lineComment => x.lineCommentLine line
  | .blockComment | .propertyComment => x.blockCommentLine ['\n'] line
  | .declaration => x.declarationLine line
  | .options => x.optionsLine line

/-- The end of the file closes a block that is still open. -/
def finish (x : Extractor) : Extractor := if x.phase = .idle then x else x.emit

/-- A block that only the end of the file closes is reported. -/
def finishEvents (x : Extractor) : List Event :=
  if x.phase = .idle then [] else [.unclosedComment x.file x.start]

end Extractor

/-- The lines of a source text, without the carriage returns at their ends. -/
def sourceLines (text : Text) : List Text := (lines text).map (dropEndWhile (· == '\r'))

def scan (file : Json) (text : Text) : Extractor :=
  (sourceLines text).foldl Extractor.feed { file }

def extract (file : Json) (text : Text) : List CommentBlock := (scan file text).finish.blocks

def extractEvents (file : Json) (text : Text) : List Event := (scan file text).finishEvents

end Comment

end StyleGuide
