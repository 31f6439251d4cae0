import StyleGuide.Event
import StyleGuide.Files.Tree
import StyleGuide.Json.Shape

/-!
# Output files

A writer puts JSON files below its output directory. It leaves a file alone that has the
wanted text already, keeps account of what it did, and tells at the end what changed. In a dry
run it only says what it would do.
-/

namespace StyleGuide

inductive WriterFault where
  | noDirectory (outdir : String)
  | contentsAndData
  | absolute (name : String)
  | escapes (path : String)
  | notJson (path : String)
  | finalized
  | file (fault : FileFault)
  | shape (fault : ShapeFault)
  deriving DecidableEq, Repr

/-- What to write: contents, which should be a text, or data in document form; null stands for
nothing. -/
structure OutputRequest where
  contents : Json := .null
  data : Json := .null

structure Writer where
  outdir : Location
  dryRun : Bool
  /-- The files asked for, each once. -/
  made : List Location := []
  /-- What was done to which file, in order. -/
  updates : List (Action × Location) := []
  same : Nat := 0
  changed : Nat := 0
  finalized : Bool := false
  deriving DecidableEq, Repr

namespace Writer

/-- A writer for a directory, which has to be there unless the run is dry. -/
def create (tree : FileTree) (cwd : Location) (outdir : Path) (dryRun : Bool) :
    Except WriterFault Writer := do
  if outdir.text.toList.contains '\x00' then throw (.file .nullCharacter)
  let place := outdir.normalize cwd
  let there ← if dryRun then pure true else (tree.isDirAt place).mapError .file
  if there then return { outdir := place, dryRun } else throw (.noDirectory place.text)

/-- Only JSON files are written. -/
def isPossibleOutput (name : String) : Bool := ".json".toList.isSuffixOf name.toList

/-- The place that a name stands for. It has to be below the output directory, which the root
directory never counts as. -/
def resolve (outdir : Location) (name : String) : Except WriterFault Location :=
  let path := Path.ofString name
  if path.isAbsolute then .error (.absolute name)
  else
    let place := path.normalize outdir
    if outdir ≠ [] ∧ outdir.isPrefixOf place ∧ outdir.length < place.length then .ok place
    else .error (.escapes place.text)

/-- The text that is asked for, none if the contents are no text. -/
def OutputRequest.text? (r : OutputRequest) : Except WriterFault (Option Text) :=
  match r.contents, r.data with
  | .null, data => (data.document.mapError WriterFault.shape).map fun t => some (t ++ ['\n'])
  | .str contents, .null => .ok (some contents.toList)
  | _, .null => .ok none
  | _, _ => .error .contentsAndData

def prepare (w : Writer) (name : Json) (r : OutputRequest) :
    Except WriterFault (Location × Option Text) := do
  let text ← OutputRequest.text? r
  let name ← name.asText.mapError WriterFault.shape
  let place ← resolve w.outdir name
  if isPossibleOutput place.text then return (place, text)
  else throw (.notJson place.text)

/-- What has to be done so that a file has a text: nothing if it has it already. A file that
is no text counts as none. -/
def verdict (tree : FileTree) (place : Location) (text : Option Text) :
    Except FileFault (Option Action) :=
  match tree.readAt place with
  | .ok bytes =>
    match readText bytes with
    | .ok old => .ok (if some old = text then none else some .update)
    | .error _ => .ok (some .create)
  | .error (.missing _) => .ok (some .create)
  | .error fault => .error fault

def note (w : Writer) (place : Location) : Writer :=
  if w.made.contains place then w else { w with made := w.made ++ [place] }

/-- The account of one file for which `verdict` says what to do. -/
def account (w : Writer) (place : Location) : Option Action → Writer
  | none => { w with same := w.same + 1 }
  | some action =>
    { w with
      changed := if action = .update then w.changed + 1 else w.changed
      updates := w.updates ++ [(action, place)] }

/-- Write a file, with the directories above it. A name that is too long stops this, after the
directories above it are made. Without a text the file is left empty. -/
def put (tree : FileTree) (place : Location) (text : Option Text) :
    Except WriterFault Unit × FileTree :=
  if place.any FileTree.isTooLong then
    (.error (.file .tooLong), tree.makeParents (place.takeWhile (!FileTree.isTooLong ·)))
  else match text with
    | some text => (.ok (), tree.write place (Utf8.encode text))
    | none => (.error (.shape .notAText), tree.write place [])

/-- Write a file, unless it has its text already. A file is noted once its name is accepted,
whatever comes of it. -/
def make (w : Writer) (tree : FileTree) (name : Json) (r : OutputRequest) :
    Except WriterFault Unit × Writer × FileTree :=
  match w.prepare name r with
  | .error fault => (.error fault, w, tree)
  | .ok (place, text) =>
    let w := w.note place
    match verdict tree place text with
    | .error fault => (.error (.file fault), w, tree)
    | .ok action =>
      let (done, tree') := if action.isSome && !w.dryRun then put tree place text
        else (.ok (), tree)
      (done, w.account place action, tree')

def makeEvents (w : Writer) (tree : FileTree) (name : Json) (r : OutputRequest) :
    List Event :=
  match w.prepare name r with
  | .error _ => []
  | .ok (place, text) =>
    match verdict tree place text with
    | .ok (some action) =>
      [if w.dryRun then .wouldWrite action place.text else .writing action place.text]
    | _ => []

/-! ### The end of a run -/

def new (w : Writer) : Int := (w.made.length : Int) - w.same - w.changed

def summary (w : Writer) : String :=
  s!"Outputs: {w.same} same, {w.changed} changed, {w.new} new"

/-- End the run, once, with its summary. -/
def finalize (w : Writer) : Except WriterFault String × Writer :=
  if w.finalized then (.error .finalized, w) else (.ok w.summary, { w with finalized := true })

/-- Updates in the order in which they are reported: by action, then by path. -/
def sortedUpdates (w : Writer) : List (Action × String) :=
  (w.updates.map fun (action, place) => (action, place.text)).mergeSort fun a b =>
    decide (a.1.word < b.1.word ∨ (a.1 = b.1 ∧ a.2 ≤ b.2))

/-- What there is to report at the end: the summary, which is news only if something changed,
and every update. -/
def finalizeEvents (w : Writer) : List Event :=
  if w.finalized then []
  else .summary w.summary (w.same == w.made.length) ::
    w.sortedUpdates.map fun (action, path) => .written action path

end Writer

end StyleGuide
