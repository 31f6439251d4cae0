import StyleGuide.CommandLine.Command
import StyleGuide.Text.Styling

/-!
# Running a command

A command gives its exit status, what it prints, what it reports, and the files afterwards. A
status of two stands for a command line that makes no sense.
-/

namespace StyleGuide.CommandLine

structure Result where
  exit : Nat
  stdout : String := ""
  events : List Event := []
  tree : FileTree
  /-- What ended the command, if nobody dealt with it. -/
  fault : Option Fault := none

def printed (t : Text) : String := String.ofList (t.unstyled ++ ['\n'])

/-! ### `build` -/

/-- The template of a build, if there is one, and where it was found. -/
def loadNavigation (ws : Workspace) (nav : Option Path) :
    Except Fault (Option (Path × Json)) := do
  let place ← match nav with
    | some p => pure (some p)
    | none => (Navigation.locate? ws).mapError Fault.file
  place.mapM fun p => return (p, ← Navigation.load ws p)

/-- The output directory is made, unless the run is dry. -/
def prepareOutput (ws : Workspace) (a : BuildArgs) : Except FileFault Unit × FileTree :=
  if a.dryRun then (.ok (), ws.tree)
  else ws.tree.makeDirs ws.cwd a.outputDir a.outputDir.parts.length

def BuildArgs.job (a : BuildArgs) (cwd : Location) (navigation : Option Json) : BuildJob where
  patterns := if a.patterns.isEmpty then defaultPatterns else a.patterns
  base := .ofLocation cwd
  filename := .str a.filename
  navigation := navigation
  applyFilter := !a.noFilter
  workers := .int a.workers
  library := .str a.library

def fieldCount : Json → Nat
  | .obj fields => fields.length
  | _ => 0

def buildWith (ws : Workspace) (a : BuildArgs) (navigation : Option Json) : Outcome Json :=
  match Writer.create ws.tree ws.cwd a.outputDir a.dryRun with
  | .error fault => ⟨.error (.writer fault), ws.tree, []⟩
  | .ok w =>
    let outcome := (a.job ws.cwd navigation).run ws w
    { outcome with events := .writerReady a.outputDir.shown (.bool a.dryRun) :: outcome.events }

/-- `build`: read the template, build, and say what was written. A template that is not there
or makes no sense is reported; a file that cannot even be looked for is not. -/
def build (ws : Workspace) (a : BuildArgs) : Result :=
  match loadNavigation ws a.nav with
  | .error (.file fault) => { exit := 1, tree := ws.tree, fault := some (.file fault) }
  | .error fault =>
    { exit := 1, events := [.failure (fault.message?.getD "")], tree := ws.tree }
  | .ok found =>
    let used := (found.map fun (p, _) => Event.usingNavigation p.text).toList
    match prepareOutput ws a with
    | (.error fault, tree) => { exit := 1, events := used, tree, fault := some (.file fault) }
    | (.ok (), tree) =>
      let outcome := buildWith { ws with tree } a (found.map (·.2))
      let events := used ++ outcome.events
      match outcome.result with
      | .error fault => { exit := 1, events, tree := outcome.tree, fault := some fault }
      | .ok docs =>
        let target := (a.outputDir.join (.ofString a.filename)).text
        { exit := 0, events, tree := outcome.tree
          stdout := printed s!"Wrote {fieldCount docs} categories to {target}".toList }

/-! ### `blocks` -/

def fragmentJson (f : Fragment) : Json :=
  .obj [("file", f.file), ("from", f.start), ("to", f.stop), ("tags", f.toJson)]

def lossyText (bytes : List UInt8) : Text := Text.unifyNewlines (Utf8.decodeLossy bytes)

def sourceText (ws : Workspace) (p : Path) : Text :=
  match ws.read p with
  | .ok bytes => lossyText bytes
  | .error _ => []

def annotated (ws : Workspace) (options : Options) (paths : List Path) :
    Except ShapeFault (List Fragment) :=
  (paths.mapM fun p => Fragment.ofSource .standard options p.text (sourceText ws p)).map
    List.flatten

def blocks (ws : Workspace) (a : BlocksArgs) : Result :=
  let base := Path.ofLocation ws.cwd
  let options := Options.ofLibrary (.str a.library)
  let searched := Sources.expandEvents ws base a.patterns
  match Sources.expand ws base a.patterns with
  | .error fault => { exit := 1, events := searched, tree := ws.tree, fault := some (.file fault) }
  | .ok [] => { exit := 1, events := searched ++ [.noFiles a.patterns], tree := ws.tree }
  | .ok paths =>
    let events := searched ++ paths.flatMap fun p =>
      Fragment.ofSourceEvents .standard options p.text (sourceText ws p)
    match annotated ws options paths with
    | .error fault => { exit := 1, events, tree := ws.tree, fault := some (.shape fault) }
    | .ok fragments =>
      { exit := 0, events, tree := ws.tree
        stdout := printed (Json.arr (fragments.map fragmentJson)).pretty }

/-! ### Command lines -/

def icon : Level → String
  | .debug => "🐞"
  | .info => "ℹ️"
  | .warning => "⚠️"
  | .error => "❌"

/-- Events as they are shown, one a line; details only if asked for. -/
def report (verbose : Bool) (events : List Event) : String :=
  String.join <| (events.filter fun e => verbose || e.level ≠ .debug).map fun e =>
    s!"{icon e.level} {e.message}\n"

def Command.run (ws : Workspace) : Command → Result
  | build a => CommandLine.build ws a
  | blocks a => CommandLine.blocks ws a

def run (ws : Workspace) (args : List String) : Bool × Result :=
  match parse args with
  | none => (false, { exit := 2, tree := ws.tree })
  | some i => (i.verbose, i.command.run ws)

end StyleGuide.CommandLine
