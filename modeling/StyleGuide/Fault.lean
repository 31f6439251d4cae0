import StyleGuide.Json.Parser
import StyleGuide.Json.Shape
import StyleGuide.Navigation.Check
import StyleGuide.Output

/-!
# Faults

Everything that can go wrong in a run, and its wording.
-/

namespace StyleGuide

inductive Fault where
  | file (fault : FileFault)
  | shape (fault : ShapeFault)
  | template (fault : Navigation.TemplateFault)
  | templateMissing (path : String)
  | json (fault : Json.Fault)
  | decoding (fault : Utf8.Fault)
  | writer (fault : WriterFault)

def FileFault.message? : FileFault → Option String
  | missing path => some s!"[Errno 2] No such file or directory: {quote path}"
  | nullCharacter => some "embedded null byte"
  | isDirectory | notDirectory | occupied | tooLong => none

def WriterFault.message? : WriterFault → Option String
  | noDirectory outdir => some s!"Output directory {quote outdir} not found"
  | contentsAndData => some "Cannot specify both contents and data"
  | absolute name => some s!"must be relative: {quote name}"
  | escapes path => some s!"Path escapes outdir: {quote path}"
  | notJson path => some s!"Wanted to write {quote path} but is_possible_output() returns False"
  | finalized => some "finalize() called twice"
  | shape _ => none
  | file fault => fault.message?

def Fault.message? : Fault → Option String
  | file fault => fault.message?
  | shape _ => none
  | template fault => some fault.message
  | templateMissing path => some s!"Navigation template not found: {path}"
  | json fault => some fault.message
  | decoding fault => some fault.message
  | writer fault => fault.message?

end StyleGuide
