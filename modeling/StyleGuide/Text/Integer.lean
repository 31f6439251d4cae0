import StyleGuide.Text.Blank

/-!
# Whole numbers in text

A whole number is written with decimal digits and an optional sign. Space around it does not
count, nor do zeros before it, nor zeros behind a decimal point; single underscores may stand
between its digits. `toInt?` takes these away and reads what is left.
-/

namespace StyleGuide.Text

/-- Space around a number: every blank but the information separators. -/
def isSpace (c : Char) : Bool := isBlank c && !(28 ≤ c.toNat && c.toNat ≤ 31)

def maxDigits : Nat := 4300

def dropPlus? (t : Text) : Option Text :=
  match dropEndWhile isSpace (t.dropWhile isSpace) with
  | '+' :: '-' :: _ => none
  | '+' :: r => some r
  | r => some r

/-- What is left behind zeros, of which underscores may be part. The last of them is kept if
nothing or a point follows; a digit or a minus sign may follow too. -/
def afterZeros? (last : Char) : Text → Option Text
  | [] => some [last]
  | c :: cs =>
    if c = '0' ∨ c = '_' then afterZeros? c cs
    else if c = '.' then some (last :: c :: cs)
    else if c.isDigit ∨ c = '-' then some (c :: cs)
    else none

/-- The text without zeros at its start, which has to be a digit. -/
def dropZeros? : Text → Option Text
  | [] => none
  | c :: cs =>
    if c = '0' then afterZeros? c cs
    else if c.isDigit then some (c :: cs)
    else none

/-- The text without a point and the zeros behind it, if there is nothing else behind it. -/
def dropFraction (t : Text) : Text :=
  match t.dropWhile (· ≠ '.') with
  | _ :: '0' :: zeros => if zeros.all (· = '0') then t.takeWhile (· ≠ '.') else t
  | _ => t

def hasDoubleUnderscore : Text → Bool
  | '_' :: '_' :: _ => true
  | _ :: cs => hasDoubleUnderscore cs
  | [] => false

def dropUnderscores (t : Text) : Text :=
  if t.head? = some '_' ∨ t.getLast? = some '_' ∨ hasDoubleUnderscore t then t
  else t.filter (· ≠ '_')

def digitsValue (digits : Text) : Nat :=
  digits.foldl (fun n c => 10 * n + (c.toNat - '0'.toNat)) 0

/-- Digits without a zero at their start, or a lone zero. -/
def isNatural (digits : Text) : Bool :=
  !digits.isEmpty && digits.all Char.isDigit && (digits.head? ≠ some '0' || digits.length = 1)

/-- The number that digits write in its plainest form, unless there are too many of them. -/
def natural? (digits : Text) : Option Nat :=
  if isNatural digits ∧ digits.length ≤ maxDigits then some (digitsValue digits) else none

def plainInt? : Text → Option Int
  | '-' :: digits => (natural? digits).map fun n => -(n : Int)
  | digits => (natural? digits).map Int.ofNat

/-- The whole number that a text writes. A minus sign stays where it is. -/
def toInt? (t : Text) : Option Int := do
  let (sign, size) : Text × Text := match ← dropPlus? t with
    | '-' :: r => (['-'], r)
    | r => ([], r)
  let size ← dropZeros? size
  plainInt? (sign ++ dropUnderscores (dropFraction size))

end StyleGuide.Text
