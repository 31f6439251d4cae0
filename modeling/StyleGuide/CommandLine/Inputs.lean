import StyleGuide.CommandLine.Command

/-!
# What a command looks at

A program need not bring the whole disk into a file tree. A command looks for files below its
working directory, at the places where templates are looked for, and wherever its arguments
point; it reads the files that these lead to.
-/

namespace StyleGuide.CommandLine

/-- The part of a pattern before its first part with a wildcard, as a place. -/
def fixedPlace (cwd : Location) (pattern : String) : Location :=
  let parts := (Path.pieces pattern).takeWhile (!Glob.isPattern ·)
  Path.normalize cwd ⟨Path.anchorOf pattern, parts⟩

def Command.places (cwd home : Location) : Command → List Location
  | build a =>
    cwd :: ((Navigation.candidates home).map (·.normalize cwd)
      ++ (a.nav.map (·.normalize cwd)).toList ++ [a.outputDir.normalize cwd]
      ++ a.patterns.map (fixedPlace cwd))
  | blocks a => cwd :: a.patterns.map (fixedPlace cwd)

def sources (ws : Workspace) (patterns : List String) : List Path :=
  (Sources.expand ws (.ofLocation ws.cwd) patterns).toOption.getD []

/-- The files that a command may read. Only the places of files count here, not what is in
them. -/
def Command.reads (ws : Workspace) : Command → List Path
  | build a =>
    let patterns := if a.patterns.isEmpty then defaultPatterns else a.patterns
    a.nav.toList ++ Navigation.candidates ws.home
      ++ [a.outputDir.join (.ofString a.filename)]
      ++ sources ws patterns
  | blocks a => sources ws a.patterns

end StyleGuide.CommandLine
