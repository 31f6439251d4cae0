import StyleGuide.Catalog.Basic
import StyleGuide.Event

/-!
# Building the catalog

Fragments are entered into the catalog one by one. The category and the component that a file
declared last are remembered, so that a block with nothing but properties finds its component.

What is documented first stays: a section, a variant or a property is never replaced. Only the
name and the description of a component follow the latest block that declares the component
without a section.

Nothing can be filed under a list or an object. A fragment that asks for it has a fault, and
what there is to report ends there.
-/

namespace StyleGuide

/-! ### What a fragment documents -/

namespace Fragment

def toSection (f : Fragment) (key : Json) : Section where
  key := key
  name := f.label .name
  description := f.label .description
  examples := ExampleKind.all.filterMap fun kind => (f.example? kind).map fun e => (kind, e)
  hidecode := f.datum? .hidecode
  params := f.entries .param
  states := f.entries .state
  scssVariables := f.entries .scssVariable
  props := f.props

def toVariant (f : Fragment) (key : Json) : Variant where
  key := key
  html := f.example? .core
  js := f.example? .react
  ts := f.example? .angular
  scss := f.datum? .scss
  params := f.entries .param
  states := f.entries .state
  scssVariables := f.entries .scssVariable

end Fragment

/-! ### Entering a fragment into its component -/

namespace Section

/-- Add a variant, unless one of its key is there. -/
def addVariant (s : Section) (v : Variant) : Section :=
  if s.variants.any fun w => w.key.same v.key then s
  else { s with variants := s.variants ++ [v] }

end Section

namespace Component

/-- Add the properties that have a name, one after the other. -/
def addProps (c : Component) (ps : List Property) : Component :=
  ps.foldl (fun c p => if p.name.isTruthy then c.addProp p else c) c

/-- A property with a name has to be filed under its library. -/
def propsFault? (ps : List Property) : Option ShapeFault :=
  if ps.any fun p => p.name.isTruthy && !p.library.isKey then some .notAKey else none

def addPropsEvents (c : Component) : List Property → List Event
  | [] => []
  | p :: ps =>
    if !p.name.isTruthy then .unnamedProperty c.key :: c.addPropsEvents ps
    else if !p.library.isKey then []
    else if c.lacks p then (c.addProp p).addPropsEvents ps
    else .repeatedProperty p.library p.name c.key :: c.addPropsEvents ps

def modifySection (c : Component) (key : Json) (g : Section → Section) : Component :=
  { c with sections := modify c.sections }
where
  /-- The sections with the first one of the key changed. -/
  modify : List Section → List Section
    | [] => []
    | s :: ss => if s.key.same key then g s :: ss else s :: modify ss

/-- Enter the section of a fragment, if it has one, unless the section is there. -/
def enterSection (c : Component) (f : Fragment) : Component :=
  match f.key? .sectionKey with
  | none => c
  | some key => if (c.section? key).isSome then c else c.addSection (f.toSection key)

/-- Enter the variant of a fragment, if it has one and a section for it, unless the variant is
there. -/
def enterVariant (c : Component) (f : Fragment) : Component :=
  match f.key? .sectionKey, f.key? .variation with
  | some key, some variant => c.modifySection key (·.addVariant (f.toVariant variant))
  | _, _ => c

/-- A variant of a section has to be filed under its key. -/
def variantFault? (f : Fragment) : Option ShapeFault :=
  match f.key? .sectionKey, f.key? .variation with
  | some _, some variant => if variant.isKey then none else some .notAKey
  | _, _ => none

def enter (c : Component) (f : Fragment) : Component :=
  ((c.enterSection f).enterVariant f).addProps f.props

def enterFault? (f : Fragment) : Option ShapeFault := (variantFault? f).or (propsFault? f.props)

/-- What there is to report when a fragment is entered that calls the component `name`. -/
def enterEvents (c : Component) (name : Json) (f : Fragment) : List Event :=
  let repeated := match f.key? .sectionKey with
    | some key => if (c.section? key).isSome then [.repeatedSection name key] else []
    | none => []
  let homeless := match f.key? .sectionKey, f.key? .variation with
    | none, some variant => [.variantWithoutSection name variant]
    | _, _ => []
  repeated ++ if (variantFault? f).isSome then [] else homeless ++ c.addPropsEvents f.props

/-- The component that a fragment declares, with nothing below it yet. -/
def ofFragment (key : Json) (f : Fragment) : Component where
  key := key
  name := f.label .name
  description := f.label .description

/-- A declaration without a section gives the component its name and description. -/
def redeclare (c : Component) (f : Fragment) : Component :=
  if (f.key? .sectionKey).isSome then c
  else { c with name := f.label .name, description := f.label .description }

end Component

/-! ### Finding the component -/

namespace Category

/-- Change the component of the given key, or add one made by `create` at the end. -/
def modifyComponent (c : Category) (key : Json) (create : Component)
    (change : Component → Component) : Category :=
  { c with components := modify c.components }
where
  /-- The components with the first one of the key changed. -/
  modify : List Component → List Component
    | [] => [change create]
    | k :: ks => if k.key.same key then change k :: ks else k :: modify ks

end Category

namespace Catalog

/-- Change the first category of the given key, or add one at the end and change it. -/
def modifyCategory (t : Catalog) (key : Json) (change : Category → Category) : Catalog :=
  ⟨modify t.categories⟩
where
  /-- The categories with the first one of the key changed. -/
  modify : List Category → List Category
    | [] => [change { key := key }]
    | c :: cs => if c.key.same key then change c :: cs else c :: modify cs

def enter (t : Catalog) (category component : Json) (f : Fragment) : Catalog :=
  t.modifyCategory category fun c =>
    c.modifyComponent component (.ofFragment component f) fun k => (k.redeclare f).enter f

def addProps (t : Catalog) (category component : Json) (ps : List Property) : Catalog :=
  ⟨t.categories.map fun c =>
    if c.key.same category then
      { c with components := c.components.map fun k =>
          if k.key.same component then k.addProps ps else k }
    else c⟩

end Catalog

/-! ### The fold -/

/-- The catalog under construction, and what the current file declared last; null stands for
nothing. -/
structure Builder where
  catalog : Catalog := {}
  file : Json := .null
  category : Json := .null
  component : Json := .null
  deriving DecidableEq, Inhabited

/-- Components whose file declares no category go here. -/
def Catalog.defaultCategory : Json := "components"

namespace Builder

/-- A new file starts without a category and a component. -/
def atFile (b : Builder) (file : Json) : Builder :=
  if b.file.same file then b else { catalog := b.catalog, file }

def categoryFor (b : Builder) (default : Json) (f : Fragment) : Json :=
  (f.key? .category).getD (if b.category.isTruthy then b.category else default)

def target? (b : Builder) : Option Component :=
  if b.category.isTruthy && b.component.isTruthy then
    b.catalog.component? b.category b.component
  else none

/-- A block may name the category of those that follow. -/
def header (b : Builder) (f : Fragment) : Builder :=
  match f.key? .category with
  | some category => { b with category := category, component := .null }
  | none => b

/-- Enter a block without a component: its category holds for the blocks that follow, its
properties belong to the component before it. -/
def enterLoose (b : Builder) (f : Fragment) : Builder :=
  let b := b.header f
  match b.target? with
  | some _ => { b with catalog := b.catalog.addProps b.category b.component f.props }
  | none => b

def targetFault? (b : Builder) (f : Fragment) : Option ShapeFault :=
  if !f.props.isEmpty && b.category.isTruthy && b.component.isTruthy then
    b.catalog.lookupFault? b.category b.component
  else none

def enterLooseFault? (b : Builder) (f : Fragment) : Option ShapeFault :=
  let b := b.header f
  (b.targetFault? f).or (b.target?.bind fun _ => Component.propsFault? f.props)

def step (default : Json) (b : Builder) (f : Fragment) : Builder :=
  let b := b.atFile f.file
  match f.key? .component with
  | none => b.enterLoose f
  | some component =>
    let category := b.categoryFor default f
    { b with catalog := b.catalog.enter category component f, category, component }

def fault? (default : Json) (b : Builder) (f : Fragment) : Option ShapeFault :=
  let b := b.atFile f.file
  match f.key? .component with
  | none => b.enterLooseFault? f
  | some component =>
    if (b.categoryFor default f).isKey && component.isKey then Component.enterFault? f
    else some .notAKey

/-- What there is to report when a block without a component is entered. -/
def enterLooseEvents (b : Builder) (f : Fragment) : List Event :=
  let header := f.key? .category
  let announced := (header.map fun c => Event.categoryHeader f.file c).toList
  let skipped : List Event :=
    if header.isNone then [.blockWithoutComponent f.file f.start] else []
  let b := b.header f
  announced ++
    if (b.targetFault? f).isSome then []
    else match b.target? with
      | some c => if f.props.isEmpty then skipped else c.addPropsEvents f.props
      | none => skipped

def stepEvents (default : Json) (b : Builder) (f : Fragment) : List Event :=
  let b := b.atFile f.file
  match f.key? .component with
  | none => b.enterLooseEvents f
  | some component =>
    let category := b.categoryFor default f
    if category.isKey && component.isKey then
      let c := (b.catalog.component? category component).getD (.ofFragment component f)
      c.enterEvents component f
    else []

def apply (default : Json) (b : Builder) (f : Fragment) : Except ShapeFault Builder :=
  match b.fault? default f with
  | some fault => .error fault
  | none => .ok (b.step default f)

def run (default : Json) (b : Builder) (fs : List Fragment) : Builder :=
  fs.foldl (step default) b

def runFault? (default : Json) (b : Builder) : List Fragment → Option ShapeFault
  | [] => none
  | f :: fs => (b.fault? default f).or ((b.step default f).runFault? default fs)

/-- What there is to report when fragments are entered one after the other. -/
def runEvents (default : Json) (b : Builder) : List Fragment → List Event
  | [] => []
  | f :: fs =>
    b.stepEvents default f ++
      if (b.fault? default f).isSome then [] else (b.step default f).runEvents default fs

end Builder

namespace Catalog

/-- Extend a catalog by fragments without faults, in the order of files and blocks. -/
def extend (default : Json) (t : Catalog) (fs : List Fragment) : Catalog :=
  (Builder.run default { catalog := t } fs).catalog

/-- Extend a catalog by fragments, in the order of files and blocks. -/
def build (default : Json) (t : Catalog) (fs : List Fragment) : Except ShapeFault Catalog :=
  match Builder.runFault? default { catalog := t } fs with
  | some fault => .error fault
  | none => .ok (t.extend default fs)

def buildEvents (default : Json) (t : Catalog) (fs : List Fragment) : List Event :=
  Builder.runEvents default { catalog := t } fs

end Catalog

end StyleGuide
