import StyleGuide.Text.Basic

/-!
# Name patterns

A pattern for one name: `*` stands for any characters, `?` for one, and a class in brackets
for one of several. A class may have ranges, and a `!` at its start turns it round; an
unclosed bracket stands for itself. A range that ends before it starts has no characters.
-/

namespace StyleGuide.Pattern

inductive Item where
  | single (c : Char)
  | range (first last : Char)
  deriving DecidableEq, Repr

def Item.has (c : Char) : Item → Bool
  | single d => c == d
  | range first last => first ≤ c && c ≤ last

def Item.isEmpty : Item → Bool
  | single _ => false
  | range first last => last < first

inductive Token where
  | many
  | one
  | char (c : Char)
  | cls (negated : Bool) (items : List Item)
  deriving DecidableEq, Repr

/-! ### Classes -/

/-- The text up to the first closing bracket, and what follows the bracket. -/
def upToBracket? : Text → Option (Text × Text)
  | [] => none
  | c :: cs =>
    if c = ']' then some ([], cs)
    else (upToBracket? cs).map fun (inside, rest) => (c :: inside, rest)

/-- What stands in a bracket, and what follows it. A closing bracket at the start, or behind
a `!` there, is part of the class. -/
def bracket? : Text → Option (Text × Text)
  | '!' :: ']' :: cs => (upToBracket? cs).map fun (inside, rest) => ('!' :: ']' :: inside, rest)
  | ']' :: cs => (upToBracket? cs).map fun (inside, rest) => (']' :: inside, rest)
  | cs => upToBracket? cs

/-- What follows a bracket is shorter than the text with the bracket. -/
theorem length_of_upToBracket? {cs inside rest : Text}
    (h : upToBracket? cs = some (inside, rest)) : rest.length < cs.length := by
  induction cs generalizing inside rest with
  | nil => simp [upToBracket?] at h
  | cons c cs ih =>
    simp only [upToBracket?] at h
    split at h
    · simp only [Option.some.injEq, Prod.mk.injEq] at h
      simp [h.2]
    · obtain ⟨⟨i, r⟩, hi, hr⟩ := Option.map_eq_some_iff.1 h
      simp only [Prod.mk.injEq] at hr
      have := ih hi
      simp only [List.length_cons, ← hr.2]
      omega

/-- What follows a bracket is shorter. -/
theorem length_of_bracket? {cs inside rest : Text}
    (h : bracket? cs = some (inside, rest)) : rest.length < cs.length := by
  unfold bracket? at h
  split at h
  · obtain ⟨⟨i, r⟩, hi, hr⟩ := Option.map_eq_some_iff.1 h
    simp only [Prod.mk.injEq] at hr
    have := length_of_upToBracket? hi
    simp only [List.length_cons, ← hr.2]
    omega
  · obtain ⟨⟨i, r⟩, hi, hr⟩ := Option.map_eq_some_iff.1 h
    simp only [Prod.mk.injEq] at hr
    have := length_of_upToBracket? hi
    simp only [List.length_cons, ← hr.2]
    omega
  · exact length_of_upToBracket? h

/-- The items of a class: a hyphen with a character on either side makes a range of them. -/
def items : Text → List Item
  | a :: '-' :: b :: rest => .range a b :: items rest
  | a :: rest => .single a :: items rest
  | [] => []

/-- A class from what stands in a bracket. It is turned round if the first thing in it, empty
ranges aside, is a `!`. -/
def classOf (inside : Text) : Token :=
  let all : List Item := match inside with
    | '!' :: rest => .single '!' :: items rest
    | _ => items inside
  match all.filter (!·.isEmpty) with
  | .single '!' :: rest => .cls true rest
  | .range '!' last :: rest => .cls true (.single '-' :: .single last :: rest)
  | kept => .cls false kept

/-! ### Patterns -/

def parse : Text → List Token
  | [] => []
  | c :: cs =>
    if c = '*' then .many :: parse cs
    else if c = '?' then .one :: parse cs
    else if c = '[' then
      match h : bracket? cs with
      | some (inside, rest) =>
        have : rest.length < cs.length := length_of_bracket? h
        classOf inside :: parse rest
      | none => .char '[' :: parse cs
    else .char c :: parse cs
termination_by cs => cs.length

def Token.fits (c : Char) : Token → Bool
  | many => false
  | one => true
  | char d => c == d
  | cls negated items => (items.any (·.has c)) != negated

/-- One answer for each end of a name, the whole name first: the end fits a part, followed by
something of which `rest` has the answers. -/
def Token.row (t : Token) : Text → List Bool → List Bool
  | c :: cs, b :: rest =>
    let tail := t.row cs rest
    match t with
    | .many => (b || tail.headD false) :: tail
    | _ => (t.fits c && rest.headD false) :: tail
  | [], rest => match t with
    | .many => rest
    | _ => [false]
  | _ :: _, [] => []

/-- One answer for each end of a name, the whole name first: the end fits the pattern. -/
def row (name : Text) : List Token → List Bool
  | [] => name.map (fun _ => false) ++ [true]
  | t :: ts => t.row name (row name ts)

/-- A name fits a pattern. Every part is compared with every end of the name once. -/
def fits (ts : List Token) (name : Text) : Bool := (row name ts).headD false

def isPattern (t : Text) : Bool := t.any fun c => c == '*' || c == '?' || c == '['

end StyleGuide.Pattern
