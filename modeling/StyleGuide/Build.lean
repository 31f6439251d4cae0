import StyleGuide.Compile
import StyleGuide.Sources

/-!
# A build

From source files to the documentation file: expand the patterns, read the files, compile what
they document, write the result.
-/

namespace StyleGuide

/-! ### Navigation files -/

namespace Navigation

/-- The places where a template is looked for, in order. -/
def candidates (home : Location) : List Path :=
  [.ofString "docs/navigation.json", .ofString "navigation.json",
   (Path.ofLocation home).join (.ofString ".config/styledoc/navigation.json")]

/-- The first place with a template. A place that is too long to look at ends the search. -/
def locate? (ws : Workspace) : Except FileFault (Option Path) :=
  (candidates ws.home).findM? ws.checkFile

def load (ws : Workspace) (p : Path) : Except Fault Json := do
  let there ← (ws.checkFile p).mapError Fault.file
  if !there then throw (.templateMissing p.text)
  let bytes ← (ws.read p).mapError Fault.file
  let text ← (readText bytes).mapError Fault.decoding
  let template ← (Json.parse text).mapError Fault.json
  (check template).mapError Fault.template

end Navigation

/-! ### Builds -/

/-- What a step of a run gives: a result or a fault, the files afterwards, and what there is to
report. -/
structure Outcome (α : Type) where
  result : Except Fault α
  tree : FileTree
  events : List Event

structure BuildJob where
  patterns : List String
  base : Path
  filename : Json := .str "docs.json"
  navigation : Option Json := none
  applyFilter : Bool := true
  workers : Json := .int 1
  library : Json := .str Options.defaultLibrary

namespace BuildJob

def compilation (job : BuildJob) : Compilation where
  navigation := job.navigation
  applyFilter := job.applyFilter

def reading (job : BuildJob) : Sources.Reading where
  options := .ofLibrary job.library
  workers := job.workers

def paths (job : BuildJob) (ws : Workspace) : Except FileFault (List Path) :=
  Sources.expand ws job.base job.patterns

def extraction (job : BuildJob) (ws : Workspace) : Except Fault Sources.Extraction := do
  let paths ← (job.paths ws).mapError Fault.file
  Sources.load job.reading ws paths

def docs (job : BuildJob) (ws : Workspace) : Except Fault Json := do
  let x ← job.extraction ws
  (job.compilation.compile x.fragments).mapError Fault.shape

def docsEvents (job : BuildJob) (ws : Workspace) : List Event :=
  Sources.expandEvents ws job.base job.patterns ++
    (match job.paths ws with
      | .ok paths => Sources.loadEvents job.reading ws paths
      | .error _ => []) ++
    match job.extraction ws with
    | .ok x => job.compilation.compileEvents x.fragments
    | .error _ => []

def run (job : BuildJob) (ws : Workspace) (w : Writer) : Outcome Json :=
  let before := job.docsEvents ws
  match job.docs ws with
  | .error fault => ⟨.error fault, ws.tree, before⟩
  | .ok docs =>
    let request : OutputRequest := { data := docs }
    let events := before ++ w.makeEvents ws.tree job.filename request
    match w.make ws.tree job.filename request with
    | (.error fault, _, tree) => ⟨.error (.writer fault), tree, events⟩
    | (.ok (), w, tree) =>
      let events := events ++ w.finalizeEvents
      match w.finalize.1 with
      | .error fault => ⟨.error (.writer fault), tree, events⟩
      | .ok _ => ⟨.ok docs, tree, events⟩

end BuildJob

end StyleGuide
