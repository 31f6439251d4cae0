import StyleGuide.Catalog.Basic

/-!
# The catalog as a document

How the catalog and its parts are written. Labels that are null are left out of sections and
variants, and so are empty tables.

Where an example belongs there may be something else, and then there is no document:
`Catalog.document` says so, `toJson` is the document otherwise. Where plain values belong
there may be an example; such a document is made but cannot be written.
-/

namespace StyleGuide

/-! ### Parts -/

/-- A list that is left out when it is empty. -/
def listOrNull (items : List Json) : Json := if items.isEmpty then .null else .arr items

def exampleOrNull (example? : Option Json) : Json :=
  match example? with
  | some v => if v.isTruthy then v.shown else .null
  | none => .null

def Variant.toJson (v : Variant) : Json :=
  .obj (compact [("variation", v.key), ("html", exampleOrNull v.html),
    ("js", exampleOrNull v.js), ("ts", exampleOrNull v.ts), ("scss", exampleOrNull v.scss),
    ("params", listOrNull v.params), ("states", listOrNull v.states),
    ("variables", listOrNull v.scssVariables)])

def Section.fields (s : Section) : Fields :=
  compact [("section", s.key), ("name", s.name), ("description", s.description),
    ("variations", .obj (s.examples.map fun (kind, e) => (.name kind.word, e.shown))),
    ("variants", .obj (s.variants.map fun v => (v.key.toKey, v.toJson))),
    ("hidecode", s.hidecode.getD .null),
    ("params", listOrNull s.params), ("states", listOrNull s.states),
    ("variables", listOrNull s.scssVariables),
    ("props", listOrNull (s.props.map Property.toJson))]

def Section.toJson (s : Section) : Json := .obj s.fields

def Component.tableFields (c : Component) : Fields :=
  c.tables.map fun t =>
    (t.library.toKey, .arr (t.props.map Property.toJson))

def Component.toJson (c : Component) : Json :=
  .obj [("component", c.key), ("name", c.name), ("description", c.description),
    ("sections", .arr (c.sections.map Section.toJson)),
    ("props", .obj c.tableFields)]

def Category.toJson (c : Category) : Json :=
  .obj [("name", c.key),
    ("components", .obj (c.components.map fun k => (k.key.toKey, k.toJson)))]

def Catalog.toJson (t : Catalog) : Json :=
  .obj (t.categories.map fun c => (c.key.toKey, c.toJson))

/-! ### Examples where they belong -/

/-- There is an example, or nothing that would be shown as one. -/
def hasExampleOrNone (example? : Option Json) : Bool :=
  example?.all fun v => !v.isTruthy || v.isCode

def Variant.hasExamples (v : Variant) : Bool :=
  hasExampleOrNone v.html && hasExampleOrNone v.js && hasExampleOrNone v.ts
    && hasExampleOrNone v.scss

def Section.hasExamples (s : Section) : Bool :=
  s.examples.all (·.2.isCode) && s.variants.all Variant.hasExamples

def Component.hasExamples (c : Component) : Bool := c.sections.all Section.hasExamples

def documentIf (hasExamples : Bool) (document : Json) : Except ShapeFault Json :=
  if hasExamples then .ok document else .error .notAnExample

def Section.document (s : Section) : Except ShapeFault Json :=
  documentIf s.hasExamples s.toJson

def Component.document (c : Component) : Except ShapeFault Json :=
  documentIf c.hasExamples c.toJson

def Catalog.document (t : Catalog) : Except ShapeFault Json :=
  documentIf (t.categories.all fun c => c.components.all Component.hasExamples) t.toJson

end StyleGuide
