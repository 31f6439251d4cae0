import StyleGuide.Text.Basic
import StyleGuide.Text.Printable

/-!
# Quoted text

How a text is shown inside a message: in quotes, with everything that would not show on the
page spelled out. Single quotes are used unless the text has a single quote and no double
one.
-/

namespace StyleGuide.Text

def hexDigit (n : Nat) : Char := "0123456789abcdef".toList.getD n '0'

def hex : (width : Nat) → Nat → Text
  | 0, _ => []
  | width + 1, n => hex width (n / 16) ++ [hexDigit (n % 16)]

/-- A character by its code point, in the shortest of three widths. -/
def spellOut (c : Char) : Text :=
  let n := c.toNat
  if n < 0x100 then ['\\', 'x'] ++ hex 2 n
  else if n < 0x10000 then ['\\', 'u'] ++ hex 4 n
  else ['\\', 'U'] ++ hex 8 n

def quoteChar (quote c : Char) : Text :=
  if c = quote ∨ c = '\\' then ['\\', c]
  else if c = '\n' then ['\\', 'n']
  else if c = '\r' then ['\\', 'r']
  else if c = '\t' then ['\\', 't']
  else if isPrintable c then [c]
  else spellOut c

def quoteMark (t : Text) : Char :=
  if t.contains '\x27' && !t.contains '"' then '"' else '\x27'

def quoted (t : Text) : Text :=
  let mark := quoteMark t
  [mark] ++ t.flatMap (quoteChar mark) ++ [mark]

end StyleGuide.Text

namespace StyleGuide

def quote (s : String) : String := String.ofList (Text.quoted s.toList)

end StyleGuide
