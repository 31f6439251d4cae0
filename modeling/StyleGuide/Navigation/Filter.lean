import StyleGuide.Navigation.Merge

/-!
# Leaving out what has nothing to show

A section is shown if it is marked as core or has an example of one of the wanted flavours.
Components without a section to show, and categories without a component to show, are left
out. Static categories are kept as they are.
-/

namespace StyleGuide.Navigation

/-- Names of flavours after the tags that feed them, with the flavours they stand for. -/
def kindAliases : List (String × ExampleKind) :=
  [("html", .core), ("markup", .core), ("js", .react), ("ts", .angular)]

def canonicalKind (name : String) : String :=
  match kindAliases.find? fun a => a.1 == name with
  | some (_, kind) => kind.word
  | none => name

/-- What a filter lets pass: the categories kept as they are, and the flavours that count as
examples, by their canonical names. -/
structure Filter where
  static : List Key
  kinds : List String
  deriving DecidableEq, Repr

namespace Filter

def defaultStatic : List Key := ["overview", "develop", "styles"]

def allKinds : List String := ExampleKind.all.map fun kind => canonicalKind kind.word

/-- Static pages are kept, and every flavour counts. -/
def standard : Filter := ⟨defaultStatic, allKinds⟩

def keeps (f : Filter) (category : Key) : Bool := f.static.any (·.same category)

/-- Static categories from a JSON value: its items, all of which have to be keys. -/
def staticOf (v : Json) : Except ShapeFault (List Key) := do
  (← v.elements).mapM Json.asKey

/-- Wanted flavours from a JSON value: the texts of its items. -/
def kindsOf (v : Json) : Except ShapeFault (List String) := do
  return (← v.elements).map fun k => canonicalKind k.display

/-- A filter from JSON values; what is not given is as in the standard filter. -/
def ofJson (static? kinds? : Option Json) : Except ShapeFault Filter := do
  let static ← match static? with
    | some v => staticOf v
    | none => pure defaultStatic
  let kinds ← match kinds? with
    | some v => kindsOf v
    | none => pure allKinds
  return { static, kinds }

end Filter

/-! ### Sections -/

/-- An object with a non-empty example. -/
def isExample : Json → Bool
  | .obj fields => (Fields.getD fields "example" .null).isTruthy
  | _ => false

/-- One of the wanted flavours has an example in this field of a section. -/
def mapHasExample (kinds : List String) (section_ : Fields) (key : String) :
    Except ShapeFault Bool := do
  let examples ← ((section_.getD key .null).orElse (.obj [])).asObject
  return examples.any fun (kind, e) =>
    kinds.contains (canonicalKind kind.toJson.display) && isExample e

def hasExample (kinds : List String) (s : Json) : Except ShapeFault Bool := do
  let fields ← s.asObject
  if ← mapHasExample kinds fields "variations" then return true
  mapHasExample kinds fields "examples"

/-- A section is shown. -/
def isShown (kinds : List String) (s : Json) : Except ShapeFault Bool := do
  let fields ← s.asObject
  if (fields.getD "core" .null).isTruthy then return true
  hasExample kinds s

def shownSections (kinds : List String) : List Json → Except ShapeFault (List Json)
  | [] => return []
  | s :: ss => do
    let shown ← isShown kinds s
    let rest ← shownSections kinds ss
    return if shown then s :: rest else rest

/-! ### Children and categories -/

/-- A child with the sections that are shown, none if no section is. -/
def filterChild (kinds : List String) (child : Json) : Except ShapeFault (Option Json) := do
  let fields ← child.asObject
  let sections ← ((fields.getD "sections" .null).orElse (.arr [])).elements
  let shown ← shownSections kinds sections
  return if shown.isEmpty then none else some (.obj (fields.set "sections" (.arr shown)))

def filterChildren (kinds : List String) : List Json → Except ShapeFault (List Json)
  | [] => return []
  | c :: cs => do
    let child ← filterChild kinds c
    let rest ← filterChildren kinds cs
    return child.toList ++ rest

/-- A category with the children that have something to show, none if no child has. -/
def filterCategory (kinds : List String) (category : Json) : Except ShapeFault (Option Json) := do
  let fields ← category.asObject
  let kept ← filterChildren kinds (← children category)
  return if kept.isEmpty then none else some (.obj (fields.set "children" (.arr kept)))

def filterCategories (f : Filter) : Fields → Except ShapeFault Fields
  | [] => return []
  | (key, category) :: rest =>
    if f.keeps key then do
      return (key, category) :: (← filterCategories f rest)
    else do
      let kept ← filterCategory f.kinds category
      let others ← filterCategories f rest
      return (kept.map fun c => (key, c)).toList ++ others

def filter (f : Filter) (merged : Json) : Except ShapeFault Json := do
  return .obj (← filterCategories f (← merged.asObject))

/-! ### Events

What is left out is reported, up to the point where the filter fails, if it does. -/

def filterChildrenEvents (kinds : List String) (category : Key) : List Json → List Event
  | [] => []
  | c :: cs =>
    match filterChild kinds c with
    | .error _ => []
    | .ok (some _) => filterChildrenEvents kinds category cs
    | .ok none =>
      let component := match c with
        | .obj fields => Fields.getD fields "component" .null
        | _ => .null
      .droppedComponent category.toJson component :: filterChildrenEvents kinds category cs

/-- The categories that are left out, each after its children. -/
def filterCategoriesEvents (f : Filter) : Fields → List Event
  | [] => []
  | (key, category) :: rest =>
    if f.keeps key then filterCategoriesEvents f rest
    else
      let dropped := match children category with
        | .ok cs => filterChildrenEvents f.kinds key cs
        | .error _ => []
      dropped ++ match filterCategory f.kinds category with
        | .error _ => []
        | .ok none => .droppedCategory key.toJson :: filterCategoriesEvents f rest
        | .ok (some _) => filterCategoriesEvents f rest

def filterEvents (f : Filter) (merged : Json) : List Event :=
  match merged with
  | .obj categories => filterCategoriesEvents f categories
  | _ => []

end StyleGuide.Navigation
