import StyleGuide.Text.Basic

/-!
# Text without terminal styling

Terminals take an escape character and a bracket, then digits, semicolons and question marks,
then a letter as a command for colours and the like. What a program prints for others to read
has no such commands in it.
-/

namespace StyleGuide.Text

def isParameter (c : Char) : Bool := c.isDigit || c == ';' || c == '?'

def afterCommand? : Text → Option Text
  | '\x1b' :: '[' :: t =>
    match t.dropWhile isParameter with
    | c :: rest => if c.isAlpha then some rest else none
    | [] => none
  | _ => none

/-- What follows a command is shorter than the text. -/
theorem length_afterCommand_lt {t rest : Text} (h : afterCommand? t = some rest) :
    rest.length < t.length := by
  unfold afterCommand? at h
  split at h
  · next t' =>
    have hle : (t'.dropWhile isParameter).length ≤ t'.length :=
      (List.dropWhile_sublist isParameter).length_le
    split at h
    · next c r hr =>
      rw [hr] at hle
      split at h
      · cases h
        simp only [List.length_cons] at hle ⊢
        omega
      · cases h
    · cases h
  · cases h

def unstyled : Text → Text
  | [] => []
  | c :: cs =>
    match h : afterCommand? (c :: cs) with
    | some rest =>
      have : rest.length < (c :: cs).length := length_afterCommand_lt h
      unstyled rest
    | none => c :: unstyled cs
termination_by t => t.length
decreasing_by
  · exact this
  · exact Nat.lt_succ_self cs.length

end StyleGuide.Text
