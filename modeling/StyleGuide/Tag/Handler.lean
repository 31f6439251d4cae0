import StyleGuide.Comment.Extractor
import StyleGuide.Json.Shape
import StyleGuide.Tag.Value

/-!
# Tag handlers

A handler turns the content of a tag into a value. Beside its value it may have something to
report, and it may refuse settings that it cannot use. A registry says which kinds are
handled, how, and which lines are looked at.
-/

namespace StyleGuide

open Text

/-- Settings that handlers can look at, as a rule an object. -/
abbrev Options := Json

namespace Options

def none : Options := .obj []

/-- Settings that count as "no" are no settings. -/
def orNone (options : Options) : Options := options.orElse none

/-- The library to which properties belong, if the settings do not say otherwise. -/
def defaultLibrary : String := "react"

def ofLibrary (library : Json) : Options := .obj [("prop_library", library)]

def library : Options → Json
  | .obj fields => Fields.getD fields "prop_library" (.str defaultLibrary)
  | _ => .str defaultLibrary

def fault? : Options → Option ShapeFault
  | .obj _ => .none
  | _ => some .notAnObject

end Options

structure TagContext where
  name : String
  /-- The content of the tag. -/
  content : Text
  /-- The index of the tag's first line in its block. -/
  start : Int
  /-- The index of the tag's last line in its block. -/
  stop : Int
  /-- The lines of the block that have more than decoration. -/
  block : Text
  /-- Where the block stands. -/
  place : Place
  options : Options

/-- A way to read the content of a tag. A handler that has a fault has no value, but its events
are reported. -/
structure Handler where
  value : Text → TagContext → TagValue
  events : Text → TagContext → List Event := fun _ _ => []
  fault? : TagContext → Option ShapeFault := fun _ => none

namespace Handler

/-! ### Texts and examples -/

def text : Handler where
  value content _ := .text (String.ofList (squeeze content))

def escapeMarkup (t : Text) : Text :=
  t.flatMap fun c =>
    if c = '<' then "&lt;".toList else if c = '>' then "&gt;".toList else [c]

def code : Handler where
  value content _ :=
    .code (String.ofList content) (String.ofList (escapeMarkup content))

/-! ### Properties -/

/-- Stands before the type in a property declaration. -/
def typeMarker : Text := "PropTypes.".toList

/-- The type right behind a type marker: at least two characters, the first no point; it goes
to the end of the line, the line break included, or without one to the last character that
is no comma. -/
def typeBody? : Text → Option Text
  | [] => none
  | c :: cs =>
    if c = '.' then none
    else match cs.dropWhile (· ≠ '\n') with
      | newline :: _ => some (c :: cs.takeWhile (· ≠ '\n') ++ [newline])
      | [] =>
        let body := dropEndWhile (· == ',') cs
        if body.isEmpty then none else some (c :: body)

def declaredType? : Text → Option Text
  | [] => none
  | c :: cs =>
    (if typeMarker.isPrefixOf (c :: cs) then typeBody? ((c :: cs).drop typeMarker.length)
     else none).or (declaredType? cs)

structure PropertyText where
  doc : List Text
  declaration : Text

/-- The content of a property tag: the comment half reads `description | default`, the
declaration half is put together from its parts. -/
def splitProperty (content : Text) : PropertyText :=
  let (head, tail) := cut Comment.separator content
  ⟨splitOn [' ', '|', ' '] head, ((splitOn Comment.separator tail).map trim).flatten⟩

/-- The name in a declaration: what stands before the first colon. -/
def PropertyText.name (p : PropertyText) : Text := trim (cut [':'] p.declaration).1

/-- The type in a declaration, whether the property is required left aside. -/
def PropertyText.type (p : PropertyText) : Text :=
  match declaredType? p.declaration with
  | some t => trim (replace ".isRequired".toList [] t)
  | none => []

/-- A documented property. Without a default it is required. -/
def property : Handler where
  value content context :=
    let p := splitProperty content
    let fallback := trim (p.doc.getD 1 [])
    .prop {
      name := .str (String.ofList p.name)
      type := .str (String.ofList p.type)
      description := .str (String.ofList (squeeze (p.doc.headD [])))
      default := if fallback.isEmpty then .null else .str (String.ofList fallback)
      required := .bool fallback.isEmpty
      library := context.options.library }
  events content context :=
    let p := splitProperty content
    if !p.declaration.isEmpty && (declaredType? p.declaration).isNone then
      [.untypedProperty context.place.file (String.ofList p.name)]
    else []
  fault? context := context.options.fault?

/-! ### Table entries -/

/-- Stands between a name and its description. -/
def dash : Text := [' ', '-', ' ']

/-- A state: `name - description`. -/
def state : Handler where
  value content _ :=
    let (name, description) := cut dash content
    .entry [("name", String.ofList (squeeze name)),
      ("description", String.ofList (squeeze description))]

/-- The first non-empty text in parentheses, and what stands before it. -/
def parenthesized? : Text → Option (Text × Text)
  | [] => none
  | c :: cs =>
    let inside := cs.takeWhile (· ≠ ')')
    if c = '(' ∧ inside ≠ [] ∧ inside.length < cs.length then some ([], inside)
    else (parenthesized? cs).map fun (before, found) => (c :: before, found)

/-- A parameter: `name - description (type)`. -/
def param : Handler where
  value content _ :=
    let (name, rest) := cut dash content
    let (description, type) := (parenthesized? rest).getD (rest, [])
    .entry [("name", String.ofList (squeeze name)), ("type", String.ofList (trim type)),
      ("description", String.ofList (squeeze description))]

/-- A variable: `name: value`. -/
def assignment : Handler where
  value content _ :=
    let (name, value) := cut [':'] content
    .entry [("name", String.ofList (squeeze name)), ("value", String.ofList (squeeze value))]

def ofKind : TagKind → Handler
  | .category | .component | .name | .description | .sectionKey | .variation | .hidecode => text
  | .html | .markup | .js | .react | .ts | .angular | .angularjs | .scss => code
  | .prop => property
  | .state => state
  | .param => param
  | .scssVariable => assignment

end Handler

/-- The handlers in use, and the test for lines that may carry a tag. -/
structure Registry where
  handler? : TagKind → Option Handler
  detects : Text → Bool

namespace Registry

/-- A line may carry a tag if its last paragraph has an `@`. -/
def lastParagraphHasTag (line : Text) : Bool :=
  ((splitOn ['\n', '\n'] line).getLastD []).contains '@'

/-- Every kind with its usual handler. -/
def standard : Registry := ⟨fun kind => some (.ofKind kind), lastParagraphHasTag⟩

def only (kinds : List TagKind) : Registry :=
  { standard with handler? := fun kind => if kind ∈ kinds then some (.ofKind kind) else none }

def withHandler (r : Registry) (kind : TagKind) (handler : Handler) : Registry :=
  { r with handler? := fun k => if k = kind then some handler else r.handler? k }

def withDetector (r : Registry) (detects : Text → Bool) : Registry := { r with detects }

end Registry

end StyleGuide
