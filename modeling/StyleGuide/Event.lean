import StyleGuide.Json.Printer

/-!
# Events

What a run has to report besides its result. An event is what happened; its level and its
wording are functions of it.
-/

namespace StyleGuide

inductive Level where
  | debug
  | info
  | warning
  | error
  deriving DecidableEq, Repr

inductive Action where
  | create
  | update
  deriving DecidableEq, Repr

def Action.word : Action → String
  | .create => "create"
  | .update => "update"

inductive Event where
  | unclosedComment (file : Json) (line : Int)
  | unknownTag (file line : Json) (tag : String)
  | untypedProperty (file : Json) (name : String)
  | untaggedBlocks (file : Json) (dropped total : Nat)
  | categoryHeader (file : Json) (category : Json)
  | blockWithoutComponent (file line : Json)
  | repeatedSection (component sectionKey : Json)
  | variantWithoutSection (component variant : Json)
  | unnamedProperty (component : Json)
  | repeatedProperty (library name : Json) (component : Json)
  | matchedComponents (matched total : Nat)
  | droppedComponent (category component : Json)
  | droppedCategory (category : Json)
  | nothingDocumented
  | unmatchedPattern (pattern : String)
  | skippedFile (path : String)
  | documentedBlocks (path : String) (count : Nat)
  | extracted (filesRead filesSkipped blocks : Nat)
  | writerReady (outdir : String) (dryRun : Json)
  | wouldWrite (action : Action) (path : String)
  | writing (action : Action) (path : String)
  | summary (text : String) (unchanged : Bool)
  | written (action : Action) (path : String)
  | usingNavigation (path : String)
  | noFiles (patterns : List String)
  | failure (message : String)

namespace Event

/-- How much an event matters. Findings in the sources are details; what a run did as a whole
is information. -/
def level : Event → Level
  | nothingDocumented | skippedFile _ => .warning
  | extracted .. | wouldWrite .. => .info
  | summary _ unchanged => if unchanged then .debug else .info
  | noFiles _ | failure _ => .error
  | _ => .debug

def message : Event → String
  | unclosedComment file line =>
    let shown := file.orElse "<text>"
    s!"{shown.display}: comment starting at line {line} not closed at end of file"
  | unknownTag file line tag =>
    s!"{file.display}:{line.display}: ignoring unknown tag @{tag}"
  | untypedProperty file name =>
    s!"{file.display}: no PropTypes declaration for prop {quote name}"
  | untaggedBlocks file dropped total =>
    s!"{file.display}: {dropped} of {total} comment blocks carry no tags"
  | categoryHeader file category =>
    s!"{file.display}: category {category.quoted} for following blocks"
  | blockWithoutComponent file line =>
    s!"{file.display}:{line.display}: skipping block without @component"
  | repeatedSection component key =>
    s!"{component.display}: section {key.quoted} already documented"
  | variantWithoutSection component variant =>
    s!"{component.display}: @variation {variant.quoted} without @section"
  | unnamedProperty component => s!"Dropping unnamed prop on {component.display}"
  | repeatedProperty library name component =>
    s!"Duplicate {library.display} prop {name.quoted} on {component.display}"
  | matchedComponents matched total =>
    s!"Matched {matched} of {total} extracted components to navigation"
  | droppedComponent category component =>
    s!"Dropping {category.display}/{component.display}: no renderable sections"
  | droppedCategory category =>
    s!"Dropping category {category.display}: no components with examples"
  | nothingDocumented => "No documented components found, nothing to document"
  | unmatchedPattern pattern => s!"Pattern {quote pattern} matched no files"
  | skippedFile path => s!"Skipping {path}: not valid UTF-8"
  | documentedBlocks path count => s!"{path}: {count} documented blocks"
  | extracted filesRead filesSkipped blocks =>
    s!"Extraction complete: {filesRead} files read, {filesSkipped} skipped, " ++
      s!"{blocks} documented blocks"
  | writerReady outdir dryRun =>
    s!"Writer ready, outdir {outdir}, dry_run {dryRun.quoted}"
  | wouldWrite action path => s!"dry-run: would {action.word} {quote path}"
  | writing action path => s!"Writing ({action.word}) {quote path}"
  | summary text _ => text
  | written action path => s!"{action.word} {path}"
  | usingNavigation path => s!"Using navigation template {path}"
  | noFiles patterns => "No files match " ++ " ".intercalate patterns
  | failure message => message

/-- The events of several steps, up to and with the first step that fails. -/
def untilFault : List (List Event × Bool) → List Event
  | [] => []
  | (events, failed) :: rest => if failed then events else events ++ untilFault rest

end Event

end StyleGuide
