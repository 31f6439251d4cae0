import StyleGuide.Json.Basic
import StyleGuide.Text.Basic

/-!
# Reading JSON text

A strict reader from left to right. Each part returns what it read together with the rest of
the text and the proof that the rest is shorter, so that reading ends. A fault carries the
rest of the text at the place where it was found; only at the very end is that turned into
line, column and offset.

The reader takes the numbers `NaN`, `Infinity` and `-Infinity` besides the usual ones, lets
the last of several fields with one name win, and refuses whole numbers that are too long.
-/

namespace StyleGuide.Json

inductive Fault.Cause where
  | value
  | fieldName
  | colon
  | comma
  | unterminated
  | control
  | escape
  | unicodeEscape
  | extraData
  | byteOrderMark
  deriving DecidableEq, Repr

/-- Why a text is not taken as JSON: something is wrong at a place, or a whole number has too
many digits. -/
inductive Fault where
  | malformed (cause : Fault.Cause) (line column offset : Nat)
  | tooManyDigits (count : Nat)
  deriving DecidableEq, Repr

namespace Parser

/-- What stops the reader, with the text that was left. -/
inductive Stop where
  | wrong (cause : Fault.Cause) (left : Text)
  | tooManyDigits (count : Nat)

abbrev Rest (cs : Text) := { r : Text // r.length < cs.length }

abbrev Left (cs : Text) := { r : Text // r.length ≤ cs.length }

/-! ### Blanks and words -/

def isGap (c : Char) : Bool := c == ' ' || c == '\t' || c == '\n' || c == '\r'

theorem length_dropWhile_le (p : Char → Bool) (cs : Text) :
    (cs.dropWhile p).length ≤ cs.length :=
  (List.dropWhile_sublist p).length_le

def skipGap (cs : Text) : Left cs := ⟨cs.dropWhile isGap, length_dropWhile_le _ _⟩

def literals : List (Text × Json) :=
  [("null".toList, .null), ("true".toList, .bool true), ("false".toList, .bool false),
   ("NaN".toList, .double .nan), ("Infinity".toList, .double (.infinity false)),
   ("-Infinity".toList, .double (.infinity true))]

def word? (w cs : Text) : Option (Rest cs) :=
  if h : w.isPrefixOf cs ∧ w ≠ [] then
    some ⟨cs.drop w.length, by
      have hle := (List.isPrefixOf_iff_prefix.1 h.1).length_le
      have hpos := List.length_pos_iff.2 h.2
      simp only [List.length_drop]
      omega⟩
  else none

def literal? (cs : Text) : Option (Json × Rest cs) :=
  literals.findSome? fun (w, v) => (word? w cs).map fun r => (v, r)

/-! ### Numbers -/

def ofDigits (ds : Text) : Nat := ds.foldl (fun n d => 10 * n + (d.toNat - '0'.toNat)) 0

/-- The digits before the point: a zero, or a run that does not start with one. -/
def whole? : (cs : Text) → Option (Text × Rest cs)
  | [] => none
  | c :: cs =>
    if c = '0' then some ([c], ⟨cs, by simp⟩)
    else if c.isDigit then
      some (c :: cs.takeWhile Char.isDigit,
        ⟨cs.dropWhile Char.isDigit, Nat.lt_succ_of_le (length_dropWhile_le _ _)⟩)
    else none

/-- The digits after the point, none if no digit follows the point. -/
def fraction : (cs : Text) → Text × Left cs
  | '.' :: cs =>
    if (cs.takeWhile Char.isDigit).isEmpty then ([], ⟨'.' :: cs, Nat.le_refl _⟩)
    else (cs.takeWhile Char.isDigit,
      ⟨cs.dropWhile Char.isDigit, Nat.le_succ_of_le (length_dropWhile_le _ _)⟩)
  | cs => ([], ⟨cs, Nat.le_refl _⟩)

/-- A sign, if there is one: whether it is a minus, and what follows. -/
def sign : (cs : Text) → Bool × Left cs
  | '-' :: cs => (true, ⟨cs, Nat.le_succ _⟩)
  | '+' :: cs => (false, ⟨cs, Nat.le_succ _⟩)
  | cs => (false, ⟨cs, Nat.le_refl _⟩)

/-- The exponent, if a digit follows its letter and sign. -/
def exponent : (cs : Text) → Option Int × Left cs
  | [] => (none, ⟨[], Nat.le_refl _⟩)
  | c :: cs =>
    let (negative, ⟨ds, h⟩) := sign cs
    let digits := ds.takeWhile Char.isDigit
    if (c = 'e' ∨ c = 'E') ∧ digits ≠ [] then
      (some (if negative then -(ofDigits digits : Int) else ofDigits digits),
        ⟨ds.dropWhile Char.isDigit,
          Nat.le_succ_of_le (Nat.le_trans (length_dropWhile_le _ _) h)⟩)
    else (none, ⟨c :: cs, Nat.le_refl _⟩)

def minus : (cs : Text) → Bool × Left cs
  | '-' :: cs => (true, ⟨cs, Nat.le_succ _⟩)
  | cs => (false, ⟨cs, Nat.le_refl _⟩)

def maxDigits : Nat := 4300

/-- The longest number at the start of a text. Without point and exponent it is a whole
number, else a double. -/
def number (cs : Text) : Except Stop (Json × Rest cs) :=
  let (negative, ⟨r, hr⟩) := minus cs
  match whole? r with
  | none => .error (.wrong .value cs)
  | some (digits, ⟨r₁, h₁⟩) =>
    let (places, ⟨r₂, h₂⟩) := fraction r₁
    let (power, ⟨r₃, h₃⟩) := exponent r₂
    let rest : Rest cs := ⟨r₃, by omega⟩
    if places.isEmpty ∧ power.isNone then
      if maxDigits < digits.length then .error (.tooManyDigits digits.length)
      else .ok (.int (if negative then -(ofDigits digits : Int) else ofDigits digits), rest)
    else
      .ok (.double (Double.ofDecimal negative (ofDigits (digits ++ places))
        (power.getD 0 - places.length)), rest)

/-! ### Strings -/

def hexValue? (c : Char) : Option Nat :=
  if c.isDigit then some (c.toNat - '0'.toNat)
  else if 'a' ≤ c ∧ c ≤ 'f' then some (c.toNat - 'a'.toNat + 10)
  else if 'A' ≤ c ∧ c ≤ 'F' then some (c.toNat - 'A'.toNat + 10)
  else none

/-- Four hexadecimal digits with something behind them; `start` is where they are found
wrong. -/
def unit (start : Text) : (cs : Text) → Except Stop (Nat × Rest cs)
  | a :: b :: c :: d :: e :: r =>
    match hexValue? a, hexValue? b, hexValue? c, hexValue? d with
    | some w, some x, some y, some z =>
      .ok (((w * 16 + x) * 16 + y) * 16 + z, ⟨e :: r, by simp only [List.length_cons]; omega⟩)
    | _, _, _, _ => .error (.wrong .unicodeEscape start)
  | _ => .error (.wrong .unicodeEscape start)

def isHigh (n : Nat) : Bool := 0xD800 ≤ n && n ≤ 0xDBFF

/-- Second half of such a character. -/
def isLow (n : Nat) : Bool := 0xDC00 ≤ n && n ≤ 0xDFFF

/-- What stands for half a character without its other half. -/
def replacement : Char := '�'

def ofUnit (n : Nat) : Char := if isHigh n || isLow n then replacement else Char.ofNat n

/-- The character after `\u`: one unit, or two that belong together. -/
def codePoint (cs : Text) : Except Stop (Char × Rest cs) :=
  match unit ('u' :: cs) cs with
  | .error e => .error e
  | .ok (n, ⟨r, h⟩) =>
    match r, h with
    | '\\' :: 'u' :: more, h =>
      if isHigh n then
        match unit ('u' :: more) more with
        | .error e => .error e
        | .ok (m, ⟨r₂, h₂⟩) =>
          if isLow m then
            .ok (Char.ofNat (0x10000 + (n - 0xD800) * 0x400 + (m - 0xDC00)),
              ⟨r₂, by simp only [List.length_cons] at h; omega⟩)
          else .ok (replacement, ⟨'\\' :: 'u' :: more, h⟩)
      else .ok (ofUnit n, ⟨'\\' :: 'u' :: more, h⟩)
    | r, h => .ok (ofUnit n, ⟨r, h⟩)

def ofEscape? : Char → Option Char
  | '"' => some '"'
  | '\\' => some '\\'
  | '/' => some '/'
  | 'b' => some '\x08'
  | 'f' => some '\x0c'
  | 'n' => some '\n'
  | 'r' => some '\r'
  | 't' => some '\t'
  | _ => none

theorem length_lt_cons {r cs : Text} (c : Char) (h : r.length < cs.length) :
    r.length < (c :: cs).length := Nat.lt_succ_of_lt h

/-- The characters up to the closing quote. `opening` is the text from the opening quote. -/
def stringTail (opening : Text) : (cs : Text) → Except Stop (Text × Rest cs)
  | [] => .error (.wrong .unterminated opening)
  | c :: cs =>
    if c = '"' then .ok ([], ⟨cs, Nat.lt_succ_self _⟩)
    else if c = '\\' then
      match cs with
      | [] => .error (.wrong .unterminated opening)
      | e :: cs' =>
        if e = 'u' then
          match codePoint cs' with
          | .error s => .error s
          | .ok (d, ⟨r, h⟩) =>
            match stringTail opening r with
            | .error s => .error s
            | .ok (t, ⟨r', h'⟩) =>
              .ok (d :: t, ⟨r', length_lt_cons c (length_lt_cons e (Nat.lt_trans h' h))⟩)
        else match ofEscape? e with
          | none => .error (.wrong .escape (c :: e :: cs'))
          | some d =>
            match stringTail opening cs' with
            | .error s => .error s
            | .ok (t, ⟨r', h'⟩) => .ok (d :: t, ⟨r', length_lt_cons c (length_lt_cons e h')⟩)
    else if c.toNat < 0x20 then .error (.wrong .control (c :: cs))
    else match stringTail opening cs with
      | .error s => .error s
      | .ok (t, ⟨r', h'⟩) => .ok (c :: t, ⟨r', length_lt_cons c h'⟩)
termination_by cs => cs.length
decreasing_by all_goals (simp only [List.length_cons]; omega)

/-! ### Values -/

def char? (c : Char) : (cs : Text) → Option (Rest cs)
  | [] => none
  | d :: cs => if d = c then some ⟨cs, Nat.lt_succ_self _⟩ else none

mutual

def value (cs : Text) : Except Stop (Json × Rest cs) :=
  match cs with
  | [] => .error (.wrong .value [])
  | c :: cs' =>
    if c = '"' then
      match stringTail (c :: cs') cs' with
      | .error s => .error s
      | .ok (t, ⟨r, h⟩) =>
        .ok (.str (String.ofList t), ⟨r, by simp only [List.length_cons]; omega⟩)
    else if c = '[' then
      let ⟨r, h⟩ := skipGap cs'
      match char? ']' r with
      | some ⟨r', h'⟩ => .ok (.arr [], ⟨r', by simp only [List.length_cons]; omega⟩)
      | none =>
        match items r with
        | .error s => .error s
        | .ok (vs, ⟨r', h'⟩) => .ok (.arr vs, ⟨r', by simp only [List.length_cons]; omega⟩)
    else if c = '\x7b' then
      let ⟨r, h⟩ := skipGap cs'
      match char? '\x7d' r with
      | some ⟨r', h'⟩ => .ok (.obj [], ⟨r', by simp only [List.length_cons]; omega⟩)
      | none =>
        match fields r with
        | .error s => .error s
        | .ok (fs, ⟨r', h'⟩) =>
          .ok (.obj (Fields.update [] fs), ⟨r', by simp only [List.length_cons]; omega⟩)
    else match literal? (c :: cs') with
      | some v => .ok v
      | none => number (c :: cs')
termination_by (cs.length, 0)
decreasing_by all_goals (simp [Prod.lex_def]; omega)

def items (cs : Text) : Except Stop (List Json × Rest cs) :=
  match value cs with
  | .error s => .error s
  | .ok (v, ⟨r, h⟩) =>
    let ⟨r₁, h₁⟩ := skipGap r
    match char? ']' r₁ with
    | some ⟨r₂, h₂⟩ => .ok ([v], ⟨r₂, by omega⟩)
    | none =>
      match char? ',' r₁ with
      | none => .error (.wrong .comma r₁)
      | some ⟨r₂, h₂⟩ =>
        let ⟨r₃, h₃⟩ := skipGap r₂
        match items r₃ with
        | .error s => .error s
        | .ok (vs, ⟨r₄, h₄⟩) => .ok (v :: vs, ⟨r₄, by omega⟩)
termination_by (cs.length, 1)
decreasing_by all_goals simp [Prod.lex_def] <;> omega

def fields (cs : Text) : Except Stop (Fields × Rest cs) :=
  match char? '"' cs with
  | none => .error (.wrong .fieldName cs)
  | some ⟨r, h⟩ =>
    match stringTail cs r with
    | .error s => .error s
    | .ok (key, ⟨r₁, h₁⟩) =>
      let ⟨r₂, h₂⟩ := skipGap r₁
      match char? ':' r₂ with
      | none => .error (.wrong .colon r₂)
      | some ⟨r₃, h₃⟩ =>
        let ⟨r₄, h₄⟩ := skipGap r₃
        match value r₄ with
        | .error s => .error s
        | .ok (v, ⟨r₅, h₅⟩) =>
          let ⟨r₆, h₆⟩ := skipGap r₅
          match char? '\x7d' r₆ with
          | some ⟨r₇, h₇⟩ => .ok ([(.name (String.ofList key), v)], ⟨r₇, by omega⟩)
          | none =>
            match char? ',' r₆ with
            | none => .error (.wrong .comma r₆)
            | some ⟨r₇, h₇⟩ =>
              let ⟨r₈, h₈⟩ := skipGap r₇
              match fields r₈ with
              | .error s => .error s
              | .ok (fs, ⟨r₉, h₉⟩) => .ok ((.name (String.ofList key), v) :: fs, ⟨r₉, by omega⟩)
termination_by (cs.length, 1)
decreasing_by all_goals (simp [Prod.lex_def]; omega)

end

def document (cs : Text) : Except Stop Json :=
  match cs with
  | '﻿' :: _ => .error (.wrong .byteOrderMark cs)
  | _ =>
    match value (skipGap cs).1 with
    | .error s => .error s
    | .ok (v, r) =>
      match (skipGap r.1).1 with
      | [] => .ok v
      | left => .error (.wrong .extraData left)

end Parser

/-- The place in a text where `left` is still to be read, as line, column and offset. -/
def Fault.locate (cs left : Text) : Nat × Nat × Nat :=
  let before := cs.take (cs.length - left.length)
  let column := (before.reverse.takeWhile (· ≠ '\n')).length
  (before.count '\n' + 1, column + 1, before.length)

def parse (cs : Text) : Except Fault Json :=
  match Parser.document cs with
  | .ok v => .ok v
  | .error (.tooManyDigits n) => .error (.tooManyDigits n)
  | .error (.wrong cause left) =>
    let (line, column, offset) := Fault.locate cs left
    .error (.malformed cause line column offset)

def Fault.Cause.message : Fault.Cause → String
  | .value => "Expecting value"
  | .fieldName => "Expecting property name enclosed in double quotes"
  | .colon => "Expecting ':' delimiter"
  | .comma => "Expecting ',' delimiter"
  | .unterminated => "Unterminated string starting at"
  | .control => "Invalid control character at"
  | .escape => "Invalid \\escape"
  | .unicodeEscape => "Invalid \\uXXXX escape"
  | .extraData => "Extra data"
  | .byteOrderMark => "Unexpected UTF-8 BOM (decode using utf-8-sig)"

def Fault.message : Fault → String
  | .malformed cause line column offset =>
    s!"{cause.message}: line {line} column {column} (char {offset})"
  | .tooManyDigits count =>
    s!"Exceeds the limit ({Parser.maxDigits} digits) for integer string conversion: " ++
      s!"value has {count} digits; use sys.set_int_max_str_digits() to increase the limit"

end StyleGuide.Json
