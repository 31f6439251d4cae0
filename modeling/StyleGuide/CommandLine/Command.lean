import StyleGuide.CommandLine.Options
import StyleGuide.Build
import StyleGuide.Text.Integer

/-!
# Commands

`build` writes the documentation of source files, `blocks` prints what is annotated in them.
The general option `--verbose` stands before the command.
-/

namespace StyleGuide.CommandLine

structure BuildArgs where
  patterns : List String
  nav : Option Path
  outputDir : Path
  filename : String
  noFilter : Bool
  dryRun : Bool
  workers : Int
  library : String
  deriving DecidableEq, Repr

structure BlocksArgs where
  patterns : List String
  library : String
  deriving DecidableEq, Repr

inductive Command where
  | build (args : BuildArgs)
  | blocks (args : BlocksArgs)
  deriving DecidableEq, Repr

structure Invocation where
  verbose : Bool
  command : Command
  deriving DecidableEq, Repr

/-- The sources that `build` takes if it is given none. -/
def defaultPatterns : List String :=
  ["src/**/*.scss", "src/**/*.js", "src/**/*.jsx", "src/**/*.ts", "src/**/*.tsx"]

/-- Options that stand before the command. -/
def generalOptions : List OptionSpec := [⟨"--verbose", some 'v', false⟩]

def libraryOption : OptionSpec := { long := "--library", short := some 'l' }

def buildOptions : List OptionSpec :=
  [{ long := "--nav", short := some 'n' }, { long := "--output-dir", short := some 'o' },
   { long := "--filename", short := some 'f' },
   { long := "--no-filter", takesValue := false }, { long := "--dry-run", takesValue := false },
   { long := "--workers", short := some 'w' }, libraryOption]

/-- The path that an option gives, which cannot have a null character in it. -/
def pathOption (text : String) : Option Path :=
  if text.toList.contains '\x00' then none else some (.ofString text)

def parseBuild (args : List String) : Option BuildArgs := do
  let p ← parseOptions buildOptions true args
  let s := p.settings
  let workers ← Text.toInt? ((s.get? "--workers").getD "1").toList
  let nav ← (s.get? "--nav").mapM pathOption
  let outputDir ← pathOption ((s.get? "--output-dir").getD "dist")
  return {
    patterns := p.args
    nav := nav
    outputDir := outputDir
    filename := (s.get? "--filename").getD "docs.json"
    noFilter := s.has "--no-filter"
    dryRun := s.has "--dry-run"
    workers := workers
    library := (s.get? "--library").getD Options.defaultLibrary }

/-- The arguments of `blocks`, which needs a pattern. -/
def parseBlocks (args : List String) : Option BlocksArgs := do
  let p ← parseOptions [libraryOption] true args
  guard !p.args.isEmpty
  return {
    patterns := p.args
    library := (p.settings.get? "--library").getD Options.defaultLibrary }

def parse (args : List String) : Option Invocation := do
  let p ← parseOptions generalOptions false args
  let verbose := p.settings.has "--verbose"
  match p.args with
  | "build" :: rest => return ⟨verbose, .build (← parseBuild rest)⟩
  | "blocks" :: rest => return ⟨verbose, .blocks (← parseBlocks rest)⟩
  | _ => none

end StyleGuide.CommandLine
