import StyleGuide.Json.Basic
import StyleGuide.Double.Shortest
import StyleGuide.Text.Quoted

/-!
# JSON texts

Two printers. `Json.pretty` writes the document form: two spaces a level, one item a line,
fields in their order, and only those characters escaped that must be. `Json.inline` writes
the one-line form in which messages show a value.
-/

namespace StyleGuide

open Text

def Text.ofInt (n : Int) : Text :=
  (if n < 0 then ['-'] else []) ++ Nat.toDigits 10 n.natAbs

namespace Json

/-! ### Keys in messages -/

def messageTexts : Double.SpecialTexts := ⟨"inf".toList, "nan".toList⟩

def inlineCode (source escaped : Text) : Text :=
  "Example(example=".toList ++ source ++ ", escaped=".toList ++ escaped ++ [')']

def inlineKey : Key → Text
  | .name s => quoted s.toList
  | .null => "None".toList
  | .bool b => if b then "True".toList else "False".toList
  | .int n => Text.ofInt n
  | .double x => x.render messageTexts
  | .code source escaped => inlineCode (inlineKey source) (inlineKey escaped)

/-! ### Document form -/

/-- One character inside a JSON string: quote, backslash and controls are escaped. -/
def escapeChar (c : Char) : Text :=
  if c = '"' ∨ c = '\\' then ['\\', c]
  else if c = '\n' then ['\\', 'n']
  else if c = '\r' then ['\\', 'r']
  else if c = '\t' then ['\\', 't']
  else if c = '\x08' then ['\\', 'b']
  else if c = '\x0c' then ['\\', 'f']
  else if c.toNat < 0x20 then ['\\', 'u'] ++ Text.hex 4 c.toNat
  else [c]

def stringText (s : String) : Text := ['"'] ++ s.toList.flatMap escapeChar ++ ['"']

def documentTexts : Double.SpecialTexts := ⟨"Infinity".toList, "NaN".toList⟩

/-- A key as text: names as they are, all else as it is written in documents. -/
def keyText : Key → Text
  | .name s => s.toList
  | .null => "null".toList
  | .bool b => if b then "true".toList else "false".toList
  | .int n => Text.ofInt n
  | .double x => x.render documentTexts
  | k => inlineKey k

def keyString (k : Key) : Text := stringText (String.ofList (keyText k))

def newline (level : Nat) : Text := '\n' :: List.replicate (2 * level) ' '

mutual

/-- The text of a value that stands at the given level, in front of a text. -/
def prettyOnto (level : Nat) : Json → Text → Text
  | .null, rest => "null".toList ++ rest
  | .bool b, rest => (if b then "true".toList else "false".toList) ++ rest
  | .int n, rest => Text.ofInt n ++ rest
  | .double x, rest => x.render documentTexts ++ rest
  | .str s, rest => stringText s ++ rest
  | .arr [], rest => '[' :: ']' :: rest
  | .arr (v :: vs), rest =>
    '[' :: (newline (level + 1) ++ prettyOnto (level + 1) v
      (prettyItems (level + 1) vs (newline level ++ ']' :: rest)))
  | .obj [], rest => '\x7b' :: '\x7d' :: rest
  | .obj ((k, v) :: fs), rest =>
    '\x7b' :: (newline (level + 1) ++ keyString k ++ ':' :: ' ' :: prettyOnto (level + 1) v
      (prettyFields (level + 1) fs (newline level ++ '\x7d' :: rest)))
  | .code source escaped, rest => prettyOnto level source (prettyOnto level escaped rest)

/-- The further items of a list, in front of a text. -/
def prettyItems (level : Nat) : List Json → Text → Text
  | [], rest => rest
  | v :: vs, rest => ',' :: (newline level ++ prettyOnto level v (prettyItems level vs rest))

def prettyFields (level : Nat) : List (Key × Json) → Text → Text
  | [], rest => rest
  | (k, v) :: fs, rest =>
    ',' :: (newline level ++ keyString k ++ ':' :: ' ' :: prettyOnto level v
      (prettyFields level fs rest))

end

def pretty (v : Json) : Text := prettyOnto 0 v []

/-! ### In messages -/

mutual

/-- A value as messages show it: on one line, strings quoted. -/
def inline : Json → Text
  | .null => "None".toList
  | .bool b => if b then "True".toList else "False".toList
  | .int n => Text.ofInt n
  | .double x => x.render messageTexts
  | .str s => quoted s.toList
  | .arr [] => ['[', ']']
  | .arr (v :: vs) => ['['] ++ inline v ++ inlineItems vs ++ [']']
  | .obj [] => ['\x7b', '\x7d']
  | .obj ((k, v) :: fs) =>
    ['\x7b'] ++ inlineKey k ++ [':', ' '] ++ inline v ++ inlineFields fs ++ ['\x7d']
  | .code source escaped => inlineCode (inline source) (inline escaped)

def inlineItems : List Json → Text
  | [] => []
  | v :: vs => [',', ' '] ++ inline v ++ inlineItems vs

def inlineFields : List (Key × Json) → Text
  | [] => []
  | (k, v) :: fs => [',', ' '] ++ inlineKey k ++ [':', ' '] ++ inline v ++ inlineFields fs

end

def quoted (v : Json) : String := String.ofList v.inline

/-- A value in running text: a string stands for itself, all else is shown as `inline`. -/
def display : Json → String
  | .str s => s
  | v => String.ofList (inline v)

/-- The key under which a document files something, the text of it if it cannot be a key. -/
def toKey (v : Json) : Key := v.key?.getD (.name v.display)

end Json

def Key.quoted (k : Key) : String := k.toJson.quoted

end StyleGuide
