/-!
# Kinds of tags

The tags that the documentation knows, and the kinds of examples that a section can have.
-/

namespace StyleGuide

inductive TagKind where
  | category
  | component
  | name
  | description
  | sectionKey
  | variation
  | hidecode
  | html
  | markup
  | js
  | react
  | ts
  | angular
  | angularjs
  | scss
  | prop
  | state
  | param
  | scssVariable
  deriving DecidableEq, Repr

namespace TagKind

def word : TagKind → String
  | category => "category"
  | component => "component"
  | name => "name"
  | description => "description"
  | sectionKey => "section"
  | variation => "variation"
  | hidecode => "hidecode"
  | html => "html"
  | markup => "markup"
  | js => "js"
  | react => "react"
  | ts => "ts"
  | angular => "angular"
  | angularjs => "angularjs"
  | scss => "scss"
  | prop => "prop"
  | state => "state"
  | param => "param"
  | scssVariable => "variable"

def all : List TagKind :=
  [category, component, name, description, sectionKey, variation, hidecode, html, markup, js,
   react, ts, angular, angularjs, scss, prop, state, param, scssVariable]

def ofWord? (w : String) : Option TagKind := all.find? fun k => k.word == w

end TagKind

inductive ExampleKind where
  | core
  | react
  | angular
  | angularjs
  | scss
  deriving DecidableEq, Repr

namespace ExampleKind

def word : ExampleKind → String
  | core => "core"
  | react => "react"
  | angular => "angular"
  | angularjs => "angularjs"
  | scss => "scss"

/-- All flavours, in the order in which a section lists them. -/
def all : List ExampleKind := [core, react, angular, angularjs, scss]

def ofWord? (w : String) : Option ExampleKind := all.find? fun k => k.word == w

/-- The tags that give an example of this flavour, the preferred one first. -/
def sources : ExampleKind → List TagKind
  | core => [.html, .markup]
  | react => [.js, .react]
  | angular => [.ts, .angular]
  | angularjs => [.angularjs]
  | scss => [.scss]

end ExampleKind

end StyleGuide
