import StyleGuide.Proofs.Catalog.Groups
import StyleGuide.Proofs.Catalog.Typed

/-!
# The catalog of a list of fragments, read off as a whole

A list of fragments is filed in two steps that look at the list as a whole. First every fragment
gets its place: walking through the list, what the current file has declared last tells to which
component a fragment belongs (`filings`). Then the fragments are grouped, by category, by component,
by section, by variant, and for properties by library and name (`catalogOf`).

Nothing here is changed once it is made. That this gives the catalog that is built by entering one
fragment after the other is the statement of `Build`.
-/

namespace StyleGuide

/-! ### Places -/

/-- A block that belongs to a component: one that declares it, or one that has only properties
for it. -/
structure Filing where
  category : Json
  component : Json
  declares : Bool
  block : Fragment

/-- What the current file has declared last. -/
structure FileContext where
  file : Option Json := none
  category : Option Json := none
  component : Option Json := none

namespace FileContext

/-- A change of file clears the category and the component. -/
def enterFile (c : FileContext) (file : Json) : FileContext :=
  if c.file = some file then c else { file := some file }

def after (default : Json) (c : FileContext) (f : Fragment) : FileContext :=
  match f.key? .component, f.key? .category with
  | some component, category =>
    { c with category := some ((category.or c.category).getD default), component := some component }
  | none, some category => { c with category := some category, component := none }
  | none, none => c

def filing? (default : Json) (c : FileContext) (f : Fragment) : Option Filing :=
  match f.key? .component, f.key? .category with
  | some component, category =>
    some ⟨(category.or c.category).getD default, component, true, f⟩
  | none, some _ => none
  | none, none =>
    match c.category, c.component with
    | some category, some component => some ⟨category, component, false, f⟩
    | _, _ => none

end FileContext

/-- The places of the fragments of a list that have one, in order. -/
def filings (default : Json) (c : FileContext) : List Fragment → List Filing
  | [] => []
  | f :: fs =>
    let c := c.enterFile f.file
    (c.filing? default f).toList ++ filings default (c.after default f) fs

/-! ### Groups -/

/-- The examples of a flavour: the values of its tags, those of the preferred tag first. -/
def Fragment.examples (f : Fragment) (kind : ExampleKind) : List Json :=
  kind.sources.flatMap f.entries

/-- The variant that blocks document together: the first one tells all. -/
def variantOf (key : Json) (blocks : List Fragment) : Variant :=
  let first := blocks.headD default
  { key
    html := (first.examples .core).head?
    js := (first.examples .react).head?
    ts := (first.examples .angular).head?
    scss := (first.entries .scss).head?
    params := first.entries .param
    states := first.entries .state
    scssVariables := first.entries .scssVariable }

/-- The section that blocks document together: the first one tells all but the variants, which are
those that any of them names. -/
def sectionOf (key : Json) (blocks : List Fragment) : Section :=
  let first := blocks.headD default
  { key
    name := first.label .name
    description := first.label .description
    examples := ExampleKind.all.filterMap fun kind =>
      (first.examples kind).head?.map fun e => (kind, e)
    variants := grouped (Fragment.key? · .variation) variantOf blocks
    hidecode := (first.entries .hidecode).head?
    params := first.entries .param
    states := first.entries .state
    scssVariables := first.entries .scssVariable
    props := first.props }

def Property.tableKey? (p : Property) : Option Json :=
  if p.name.isTruthy then some p.library else none

/-- The table of a library: of the properties of one name, the first. -/
def tableOf (library : Json) (ps : List Property) : PropertyTable :=
  { library, props := grouped (fun p => some p.name) (fun _ same => same.headD default) ps }

/-- The tables of properties, by library; a property without a name has no table. -/
def tablesOf (ps : List Property) : List PropertyTable := grouped Property.tableKey? tableOf ps

def declaringBlocks (fs : List Filing) : List Fragment := (fs.filter (·.declares)).map (·.block)

def propsOf (fs : List Filing) : List Property := fs.flatMap (·.block.props)

/-- The block that gives a component its name and description, of those that declare it: the last
one without a section, or else the first one. -/
def namingBlock (blocks : List Fragment) : Fragment :=
  ((blocks.filter fun f => f.key? .sectionKey = none).getLast?).getD (blocks.headD default)

/-- The component that blocks document together. Its sections are those that declaring blocks name;
its properties are those of all blocks. -/
def componentOf (key : Json) (fs : List Filing) : Component where
  key := key
  name := (namingBlock (declaringBlocks fs)).label .name
  description := (namingBlock (declaringBlocks fs)).label .description
  sections := grouped (Fragment.key? · .sectionKey) sectionOf (declaringBlocks fs)
  tables := tablesOf (propsOf fs)

def categoryOf (key : Json) (fs : List Filing) : Category :=
  { key, components := grouped (fun x => some x.component) componentOf fs }

/-- The catalog of blocks that have their places. -/
def catalogOf (fs : List Filing) : Catalog :=
  ⟨grouped (fun x => some x.category) categoryOf fs⟩

end StyleGuide
