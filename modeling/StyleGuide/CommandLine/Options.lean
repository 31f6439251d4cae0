/-!
# Options on a command line

Options are written `--name value`, `--name=value`, `-n value` or `-nvalue`; short options
without a value may stand together. `--` ends the options. An option that takes a value takes
whatever comes next.
-/

namespace StyleGuide.CommandLine

structure OptionSpec where
  long : String
  short : Option Char := none
  takesValue : Bool := true
  deriving DecidableEq, Repr

/-- Options with their values, in the order given, by their long names; an option without a
value has the empty one. -/
abbrev Settings := List (String × String)

def Settings.get? (s : Settings) (long : String) : Option String :=
  (s.reverse.find? fun o => o.1 == long).map (·.2)

def Settings.has (s : Settings) (long : String) : Bool := s.any fun o => o.1 == long

structure Parsed where
  settings : Settings := []
  args : List String := []
  deriving DecidableEq, Repr

/-- What one argument with options gives, and the option that still waits for its value. -/
abbrev Reading := Settings × Option String

/-- Short options that stand together. The first that takes a value takes the rest. -/
def readShort (specs : List OptionSpec) : List Char → Option Reading
  | [] => some ([], none)
  | c :: cs =>
    match specs.find? fun o => o.short == some c with
    | none => none
    | some o =>
      if o.takesValue then
        if cs.isEmpty then some ([], some o.long) else some ([(o.long, String.ofList cs)], none)
      else (readShort specs cs).map fun (settings, waiting) =>
        ((o.long, "") :: settings, waiting)

/-- An option without the value that is attached to it, and that value. -/
def splitValue (arg : String) : String × Option String :=
  let cs := arg.toList
  match cs.dropWhile (· ≠ '=') with
  | [] => (arg, none)
  | _ :: value => (String.ofList (cs.takeWhile (· ≠ '=')), some (String.ofList value))

/-- An argument that starts with a hyphen. A known long option comes first; else a single
hyphen starts short options. -/
def readOption (specs : List OptionSpec) (arg : String) : Option Reading :=
  let (name, value) := splitValue arg
  match specs.find? fun o => o.long == name with
  | some o =>
    match o.takesValue, value with
    | true, some v => some ([(o.long, v)], none)
    | true, none => some ([], some o.long)
    | false, some _ => none
    | false, none => some ([(o.long, "")], none)
  | none =>
    if ['-', '-'].isPrefixOf arg.toList then none else readShort specs (arg.toList.drop 1)

/-- An argument that may hold options: a hyphen and something behind it. -/
def isOption (arg : String) : Bool := arg.toList.head? = some '-' && arg ≠ "-"

/-- Read options and arguments. If they do not mix, the first plain argument ends the
options. -/
def parseOptions (specs : List OptionSpec) (mixed : Bool) : List String → Option Parsed
  | [] => some {}
  | arg :: rest =>
    if arg = "--" then some { args := rest }
    else if isOption arg then
      match readOption specs arg with
      | none => none
      | some (settings, none) =>
        (parseOptions specs mixed rest).map fun p => { p with settings := settings ++ p.settings }
      | some (settings, some long) =>
        match rest with
        | [] => none
        | value :: rest =>
          (parseOptions specs mixed rest).map fun p =>
            { p with settings := settings ++ (long, value) :: p.settings }
    else if mixed then (parseOptions specs mixed rest).map fun p => { p with args := arg :: p.args }
    else some { args := arg :: rest }

end StyleGuide.CommandLine
