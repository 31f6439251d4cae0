import StyleGuide.Json.Equality
import StyleGuide.Tag.Kind

/-!
# Values of tags

What a tag documents: a property or data, which is the text of most tags, the entry of a table
or a code example. What is read from a comment is made of texts; a caller may put any value in
their place.
-/

namespace StyleGuide

/-- A documented property of a component. A property without a default has null there. -/
structure Property where
  name : Json
  type : Json
  description : Json
  default : Json
  required : Json
  library : Json
  deriving DecidableEq, Inhabited

def compact (fields : Fields) : Fields := fields.filter fun f => !f.2.isNull

/-- A property in a document; its library is told by the table it stands in. -/
def Property.toJson (p : Property) : Json :=
  .obj (compact [("name", p.name), ("type", p.type), ("description", p.description),
    ("default", p.default), ("required", p.required)])

inductive TagValue where
  | data (v : Json)
  | prop (p : Property)
  deriving DecidableEq

instance : Inhabited TagValue := ⟨.data .null⟩

instance : Coe String TagValue := ⟨fun s => .data (.str s)⟩

namespace TagValue

def text (s : String) : TagValue := .data (.str s)

def code (source escaped : String) : TagValue := .data (.code (.str source) (.str escaped))

def entry (labels : List (String × String)) : TagValue :=
  .data (.obj (labels.map fun l => (.name l.1, .str l.2)))

def prop? : TagValue → Option Property
  | prop p => some p
  | _ => none

def plain : TagValue → Json
  | data v => v
  | prop p => p.toJson

def toJson (v : TagValue) : Json := v.plain.shown

end TagValue

end StyleGuide
