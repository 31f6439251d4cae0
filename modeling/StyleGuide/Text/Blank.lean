import StyleGuide.Text.Basic

/-!
# Blank characters

The characters that count as blank, and the trimming that goes with them. `squeeze` is the
canonical form of a one-line text: no blank at either end, and single spaces inside.
-/

namespace StyleGuide.Text

/-- The blank characters: the controls that move the print position, the four information
separators, and every space, line and paragraph separator. -/
def isBlank (c : Char) : Bool :=
  let n := c.toNat
  (9 ≤ n && n ≤ 13) || (28 ≤ n && n ≤ 32) || n == 0x85 || n == 0xA0 || n == 0x1680
    || (0x2000 ≤ n && n ≤ 0x200A) || n == 0x2028 || n == 0x2029 || n == 0x202F || n == 0x205F
    || n == 0x3000

/-- The text without the characters of a class at its end. -/
def dropEndWhile (p : Char → Bool) (t : Text) : Text := (t.reverse.dropWhile p).reverse

def trimStart (t : Text) : Text := t.dropWhile isBlank

def trimEnd (t : Text) : Text := dropEndWhile isBlank t

def trim (t : Text) : Text := trimEnd (trimStart t)

/-- Every maximal run of blanks becomes one space. The flag says whether the character
before was blank. -/
def collapse : Bool → Text → Text
  | _, [] => []
  | inRun, c :: cs =>
    if isBlank c then (if inRun then collapse true cs else ' ' :: collapse true cs)
    else c :: collapse false cs

/-- Runs of blanks become one space, and both ends are trimmed. -/
def squeeze (t : Text) : Text := trim (collapse false t)

end StyleGuide.Text
