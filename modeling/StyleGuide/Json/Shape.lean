import StyleGuide.Json.Printer

/-!
# Shapes of values

A value from outside may be something else than expected at every step into it. The functions
here go one step and say what is in the way if it cannot be done.
-/

namespace StyleGuide

inductive ShapeFault where
  /-- Fields are asked of something that is no object. -/
  | notAnObject
  /-- Fields are to be copied from something that is no object. -/
  | notCopyable
  /-- Items are asked of something that has none. -/
  | notIterable
  /-- A list or an object is used as a key. -/
  | notAKey
  /-- An example is asked of something that is none. -/
  | notAnExample
  /-- A code example is to be written that is not shown. -/
  | notWritable
  /-- A number is asked of something that is none. -/
  | notANumber
  /-- A text is asked of something that is none. -/
  | notAText
  deriving DecidableEq, Repr

namespace Json

def asObject : Json → Except ShapeFault Fields
  | .obj fields => .ok fields
  | _ => .error .notAnObject

def asCopy : Json → Except ShapeFault Fields
  | .obj fields => .ok fields
  | _ => .error .notCopyable

/-- The items of a value: those of a list, the characters of a string, the keys of an
object. -/
def elements : Json → Except ShapeFault (List Json)
  | .arr items => .ok items
  | .str s => .ok (s.toList.map fun c => .str (String.ofList [c]))
  | .obj fields => .ok ((Fields.keys fields).map Key.toJson)
  | _ => .error .notIterable

def asKey (v : Json) : Except ShapeFault Key :=
  match v.key? with
  | some k => .ok k
  | none => .error .notAKey

def document (v : Json) : Except ShapeFault Text :=
  if v.isWritable then .ok v.pretty else .error .notWritable

def asText : Json → Except ShapeFault String
  | .str s => .ok s
  | _ => .error .notAText

end Json

end StyleGuide
