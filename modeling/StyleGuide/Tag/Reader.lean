import StyleGuide.Tag.Fragment
import StyleGuide.Tag.Handler

/-!
# Reading the tags of comment blocks

A tag runs from its line to the next line that starts with an `@` once its decoration is gone.
Every line that the registry detects, whose tag is of a known kind with a handler, adds one
value to the fragment of the block. A handler that refuses its settings stops the reading.
-/

namespace StyleGuide

open Text Comment

/-- One tag: its name, its content, and the indices of its first and last line. -/
structure Tag where
  name : Text
  content : Text
  start : Int
  stop : Int
  deriving DecidableEq, Repr

namespace Tag

/-- The name of the tag on a line: the word after the first `@`, empty if there is none. -/
def nameOf (line : Text) : Text :=
  ((normalize line).dropWhile (· ≠ '@')).drop 1 |>.takeWhile (!isBlank ·)

def startsTag (line : Text) : Bool := (normalize line).head? = some '@'

/-- A star counts as decoration only this close to the start of its line. -/
def starWindow : Nat := 10

/-- The line behind its decoration: a star near its start and one space after it. -/
def stripStar (line : Text) : Text :=
  let before := line.takeWhile (· ≠ '*')
  if before.length < line.length ∧ before.length < starWindow then
    match line.drop (before.length + 1) with
    | ' ' :: rest => rest
    | rest => rest
  else line

def firstText (marker line : Text) : Text := trim (stripStar (eraseFirst marker line))

def nextText (line : Text) : Text := trimEnd (stripStar line)

/-- What is kept of the lines of a tag, the first of which has the marker. Lines of which
nothing is left, or which name the tag again, are left out. -/
def contentOf (marker : Text) : List Text → Text
  | [] => []
  | line :: more =>
    unlines ((firstText marker line :: more.map nextText).filter fun t =>
      !t.isEmpty && !has marker t)

/-- The tag that starts on a line with the given index, followed by the further lines. -/
def read? (index : Nat) (line : Text) (below : List Text) : Option Tag :=
  let name := nameOf line
  if name.isEmpty then none
  else
    let more := below.takeWhile (!startsTag ·)
    some {
      name
      content := contentOf ('@' :: name) (line :: more)
      start := index
      stop := index + more.length }

/-- The tag that starts on a line, where `before` lines stand before it and `after` lines from
it to the end, and its index is counted from there. Looking for the end of the tag goes on at
the first line; the tag then has the lines between its own and that end, if there are any. -/
def readBack? (lines : List Text) (before after : Nat) (line : Text) : Option Tag :=
  let name := nameOf line
  if name.isEmpty then none
  else
    let passed := ((lines.drop (before + 1) ++ lines).takeWhile (!startsTag ·)).length + 1
    let stop := if passed < after then before + passed else passed - after
    some {
      name
      content := contentOf ('@' :: name) ((lines.take stop).drop before)
      start := -after
      stop := (passed : Int) - after - 1 }

/-- The tag that starts on the line of the given index, if there is such a line. A negative
index counts from the end. -/
def readAt? (lines : List Text) : Int → Option (Option Tag)
  | .ofNat n => lines[n]?.map fun line => read? n line (lines.drop (n + 1))
  | .negSucc n =>
    if n < lines.length then
      let before := lines.length - (n + 1)
      lines[before]?.map (readBack? lines before (n + 1))
    else none

end Tag

/-! ### Blocks -/

structure TagReader where
  registry : Registry
  options : Options
  /-- The lines of the block that have more than decoration. -/
  lines : List Text
  /-- The same lines as one text. -/
  block : Text
  /-- Where the block stands. -/
  place : Place

namespace TagReader

/-- The tags of a block, given its text. Settings that count as "no" are none. -/
def ofText (registry : Registry) (options : Options) (place : Place) (text : Text) : TagReader :=
  let lines := (Text.lines text).filter fun line => !(normalize line).isEmpty
  { registry, options := options.orNone, lines, block := unlines lines, place }

/-- The kind and the handler of the tag on a line, if the registry looks at the line. -/
def handler? (registry : Registry) (line : Text) : Option (TagKind × Handler) :=
  if registry.detects line then
    (TagKind.ofWord? (String.ofList (Tag.nameOf line))).bind fun kind =>
      (registry.handler? kind).map fun handler => (kind, handler)
  else none

def context (r : TagReader) (tag : Tag) : TagContext where
  name := String.ofList tag.name
  content := tag.content
  start := tag.start
  stop := tag.stop
  block := r.block
  place := r.place
  options := r.options

/-! ### One line -/

def value? (r : TagReader) (index : Nat) (line : Text) (below : List Text) :
    Option (TagKind × TagValue) :=
  (handler? r.registry line).bind fun (kind, handler) =>
    (Tag.read? index line below).map fun tag =>
      (kind, handler.value tag.content (r.context tag))

def lineEvents (r : TagReader) (index : Nat) (line : Text) (below : List Text) : List Event :=
  if !r.registry.detects line then []
  else
    let name := Tag.nameOf line
    match handler? r.registry line with
    | none =>
      if name.isEmpty then []
      else [.unknownTag r.place.file r.place.start (String.ofList name)]
    | some (_, handler) =>
      match Tag.read? index line below with
      | none => []
      | some tag => handler.events tag.content (r.context tag)

def fault? (r : TagReader) (index : Nat) (line : Text) (below : List Text) : Option ShapeFault :=
  (handler? r.registry line).bind fun (_, handler) =>
    (Tag.read? index line below).bind fun tag => handler.fault? (r.context tag)

/-! ### All lines -/

/-- Something for every line, given its index and the lines below it. -/
def forLines {α : Type} (f : Nat → Text → List Text → List α) (index : Nat) :
    List Text → List α
  | [] => []
  | line :: below => f index line below ++ forLines f (index + 1) below

/-- If no line gives anything, nothing is given. -/
theorem forLines_eq_nil {α : Type} {f : Nat → Text → List Text → List α} {ls : List Text}
    (h : ∀ i, ∀ l ∈ ls, ∀ below, f i l below = []) (i : Nat) : forLines f i ls = [] := by
  induction ls generalizing i with
  | nil => rfl
  | cons l ls ih =>
    rw [forLines, h i l List.mem_cons_self, List.nil_append]
    exact ih (fun i l hl => h i l (List.mem_cons_of_mem _ hl)) (i + 1)

/-- A change of what each line gives is a change of all that is given. -/
theorem forLines_eq_map {α β : Type} {f : Nat → Text → List Text → List α}
    {g : Nat → Text → List Text → List β} {ls : List Text} (change : α → β)
    (h : ∀ i, ∀ l ∈ ls, ∀ below, g i l below = (f i l below).map change) (i : Nat) :
    forLines g i ls = (forLines f i ls).map change := by
  induction ls generalizing i with
  | nil => rfl
  | cons l ls ih =>
    rw [forLines, forLines, List.map_append, h i l List.mem_cons_self]
    rw [ih (fun i l hl => h i l (List.mem_cons_of_mem _ hl)) (i + 1)]

def values (r : TagReader) : List (TagKind × TagValue) :=
  forLines (fun i line below => (r.value? i line below).toList) 0 r.lines

def fragment (r : TagReader) : Fragment :=
  r.values.foldl (fun f (kind, value) => f.add kind value) { toPlace := r.place }

def faults (r : TagReader) : List ShapeFault :=
  forLines (fun i line below => (r.fault? i line below).toList) 0 r.lines

def read (r : TagReader) : Except ShapeFault Fragment :=
  match r.faults with
  | fault :: _ => .error fault
  | [] => .ok r.fragment

/-- What there is to report about a block, up to its first fault. -/
def events (r : TagReader) : List Event :=
  Event.untilFault (forLines (fun i line below =>
    [(r.lineEvents i line below, (r.fault? i line below).isSome)]) 0 r.lines)

end TagReader

def CommentBlock.reader (registry : Registry) (options : Options) (block : CommentBlock) :
    TagReader :=
  .ofText registry options block.place block.text

/-! ### Whole sources -/

namespace Fragment

/-- The fragments of a source text; blocks without tags have none. -/
def ofSource (registry : Registry) (options : Options) (file : Json) (text : Text) :
    Except ShapeFault (List Fragment) :=
  (((extract file text).map (CommentBlock.reader registry options)).mapM TagReader.read).map
    fun fs => fs.filter (!·.isEmpty)

/-- What there is to report about a source text, up to its first fault. -/
def ofSourceEvents (registry : Registry) (options : Options) (file : Json) (text : Text) :
    List Event :=
  let blocks := extract file text
  extractEvents file text
    ++ Event.untilFault ((blocks.map (CommentBlock.reader registry options)).map fun r =>
      (r.events, !r.faults.isEmpty))
    ++ match ofSource registry options file text with
      | .error _ => []
      | .ok kept =>
        if kept.length = blocks.length then []
        else [.untaggedBlocks file (blocks.length - kept.length) blocks.length]

end Fragment

end StyleGuide
