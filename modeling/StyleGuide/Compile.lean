import StyleGuide.Catalog.Fold
import StyleGuide.Navigation.Filter

/-!
# Compiling documentation

Fragments become a catalog; with a template the catalog is merged into it and, unless told
otherwise, what has nothing to show is left out. Without any documented component the result
is empty.
-/

namespace StyleGuide

structure Compilation where
  navigation : Option Json := none
  applyFilter : Bool := true
  defaultCategory : Json := Catalog.defaultCategory

namespace Compilation

def catalog (c : Compilation) (fs : List Fragment) : Except ShapeFault Catalog :=
  Catalog.build c.defaultCategory {} fs

def render (c : Compilation) (t : Catalog) : Except ShapeFault Json :=
  if t.isEmpty then .ok (.obj [])
  else match c.navigation with
    | none => t.document
    | some template => do
      let merged ← Navigation.merge t template
      if c.applyFilter then Navigation.filter .standard merged else return merged

def compile (c : Compilation) (fs : List Fragment) : Except ShapeFault Json := do
  c.render (← c.catalog fs)

def renderEvents (c : Compilation) (t : Catalog) : List Event :=
  if t.isEmpty then [.nothingDocumented]
  else match c.navigation with
    | none => []
    | some template =>
      Navigation.mergeEvents t template ++
        match Navigation.merge t template with
        | .ok merged => if c.applyFilter then Navigation.filterEvents .standard merged else []
        | .error _ => []

def compileEvents (c : Compilation) (fs : List Fragment) : List Event :=
  Catalog.buildEvents c.defaultCategory {} fs ++
    match c.catalog fs with
    | .ok t => c.renderEvents t
    | .error _ => []

end Compilation

end StyleGuide
