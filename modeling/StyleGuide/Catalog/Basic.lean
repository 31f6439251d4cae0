import StyleGuide.Json.Shape
import StyleGuide.Tag.Fragment

/-!
# The catalog

All that is documented: categories of components, components with their sections and
property tables, sections with their examples and variants. Everything stands in the order in
which it was first documented and is found by its key. Keys and labels are as a rule texts,
but a caller may use any values.
-/

namespace StyleGuide

structure Variant where
  key : Json
  html : Option Json := none
  js : Option Json := none
  ts : Option Json := none
  scss : Option Json := none
  params : List Json := []
  states : List Json := []
  scssVariables : List Json := []
  deriving DecidableEq, Inhabited

structure Section where
  key : Json
  name : Json := ""
  description : Json := ""
  examples : List (ExampleKind × Json) := []
  variants : List Variant := []
  hidecode : Option Json := none
  params : List Json := []
  states : List Json := []
  scssVariables : List Json := []
  props : List Property := []
  deriving DecidableEq, Inhabited

structure PropertyTable where
  library : Json
  props : List Property
  deriving DecidableEq, Inhabited

structure Component where
  key : Json
  name : Json := ""
  description : Json := ""
  sections : List Section := []
  tables : List PropertyTable := []
  deriving DecidableEq, Inhabited

structure Category where
  key : Json
  components : List Component := []
  deriving DecidableEq, Inhabited

structure Catalog where
  categories : List Category := []
  deriving DecidableEq, Inhabited

/-! ### Components -/

namespace Component

def section? (c : Component) (key : Json) : Option Section :=
  c.sections.find? fun s => s.key.same key

/-- The property is not yet in the table of its library, by its name. -/
def lacks (c : Component) (p : Property) : Bool :=
  !c.tables.any fun t => t.library.same p.library && t.props.any fun q => q.name.same p.name

/-- Put a property at the end of the table of its library. -/
def insertProp (p : Property) : List PropertyTable → List PropertyTable
  | [] => [⟨p.library, [p]⟩]
  | t :: ts =>
    if t.library.same p.library then { t with props := t.props ++ [p] } :: ts
    else t :: insertProp p ts

/-- Add a property, unless one of its name is there. -/
def addProp (c : Component) (p : Property) : Component :=
  if c.lacks p then { c with tables := insertProp p c.tables } else c

def addSection (c : Component) (s : Section) : Component :=
  { c with sections := c.sections ++ [s] }

end Component

/-! ### Categories and the catalog -/

namespace Category

def component? (c : Category) (key : Json) : Option Component :=
  c.components.find? fun k => k.key.same key

end Category

namespace Catalog

def category? (t : Catalog) (key : Json) : Option Category :=
  t.categories.find? fun c => c.key.same key

def component? (t : Catalog) (category component : Json) : Option Component :=
  (t.category? category).bind (·.component? component)

/-- Why no component can be looked up by the given keys. The second one counts only where there
is something to look through. -/
def lookupFault? (t : Catalog) (category component : Json) : Option ShapeFault :=
  if !category.isKey then some .notAKey
  else if (t.category? category).isSome && !component.isKey then some .notAKey
  else none

def isEmpty (t : Catalog) : Bool := t.categories.all fun c => c.components.isEmpty

def size (t : Catalog) : Nat := (t.categories.flatMap (·.components)).length

end Catalog

end StyleGuide
