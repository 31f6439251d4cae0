import StyleGuide.Catalog.Document
import StyleGuide.Event

/-!
# Merging the catalog into a template

The template decides which pages there are and in which order. A child is matched with the
component of its category and name, a section with the section of its key. Where both have a
name, a description or an example, the documented one wins; what has no match stays as the
template has it.
-/

namespace StyleGuide.Navigation

def exampleMaps : List Key := ["variations", "examples"]

/-- The documented label, or that of the template if there is none. -/
def preferLabel (documented : Json) (template : Fields) (key : Key) : Json :=
  if documented.isTruthy then documented else template.getD key (.str "")

/-- The examples of template and documentation together, in one field of a section. -/
def mergeExamples (template documented : Fields) (merged : Fields) (key : Key) :
    Except ShapeFault Fields :=
  if template.has key || documented.has key then do
    let old ← (template.getD key (.obj [])).asCopy
    let new ← (documented.getD key (.obj [])).asCopy
    return merged.set key (.obj (old.update new))
  else return merged

def mergeSection (template : Fields) (s : Section) : Except ShapeFault Json := do
  let documented := s.fields
  let merged := template.update documented
  let merged := merged.set "name" (preferLabel s.name template "name")
  let merged := merged.set "description" (preferLabel s.description template "description")
  let merged ← exampleMaps.foldlM (mergeExamples template documented) merged
  return .obj merged

def mergeSection? (c : Component) (template : Json) : Except ShapeFault Json := do
  let fields ← template.asObject
  let key ← (fields.getD "section" (.str "")).asKey
  match c.section? key.toJson with
  | some s => mergeSection fields s
  | none => return template

/-- Why a documented section cannot be matched with those of a template: its examples have to
be examples, and its key has to be one. -/
def sectionFault? (s : Section) : Option ShapeFault :=
  if !s.hasExamples then some .notAnExample else if !s.key.isKey then some .notAKey else none

def mergeComponent (template : Fields) (c : Component) : Except ShapeFault Json := do
  let merged := template.set "name" (preferLabel c.name template "name")
  let merged := merged.set "description" (preferLabel c.description template "description")
  if let some fault := c.sections.findSome? sectionFault? then throw fault
  let sections ← (template.getD "sections" (.arr [])).elements
  let sections ← sections.mapM (mergeSection? c)
  let merged := merged.set "sections" (.arr sections)
  let tables ← (template.getD "props" (.obj [])).asCopy
  return .obj (merged.set "props" (.obj (tables.update c.tableFields)))

def childComponent? (t : Catalog) (category : Key) (child : Json) :
    Except ShapeFault (Option Component) := do
  let fields ← child.asObject
  match t.category? category.toJson with
  | none => return none
  | some c =>
    let key ← (fields.getD "component" (.str "")).asKey
    return c.component? key.toJson

def mergeChild (t : Catalog) (category : Key) (child : Json) : Except ShapeFault Json := do
  match ← childComponent? t category child with
  | some c => mergeComponent (← child.asObject) c
  | none => return child

def children (category : Json) : Except ShapeFault (List Json) := do
  ((← category.asObject).getD "children" (.arr [])).elements

def mergeCategory (t : Catalog) (key : Key) (category : Json) : Except ShapeFault Json := do
  let fields ← category.asObject
  let merged ← (← children category).mapM (mergeChild t key)
  return .obj (if fields.has "children" then fields.set "children" (.arr merged) else fields)

def merge (t : Catalog) (template : Json) : Except ShapeFault Json := do
  let categories ← template.asObject
  return .obj (← categories.mapM fun (key, category) =>
    return (key, ← mergeCategory t key category))

def matchCount (t : Catalog) (template : Json) : Nat :=
  match template with
  | .obj categories => (categories.flatMap fun (key, category) =>
      ((children category).toOption.getD []).filter fun child =>
        match childComponent? t key child with
        | .ok (some _) => true
        | _ => false).length
  | _ => 0

def mergeEvents (t : Catalog) (template : Json) : List Event :=
  match merge t template with
  | .ok _ => [.matchedComponents (matchCount t template) t.size]
  | .error _ => []

end StyleGuide.Navigation
