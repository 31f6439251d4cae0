/-!
# Text as a list of characters

Source text is handled as the list of its characters, so that every operation is a recursion
on the list: splitting at a character or at a fixed piece, cutting at the first occurrence of
a piece, replacing it. The main statement says that a cut loses nothing
(`eq_append_of_cut?`), which is also why splitting at a non-empty piece comes to an end.
-/

namespace StyleGuide

/-- A text, character by character. -/
abbrev Text := List Char

namespace Text

/-! ### Lines -/

/-- The pieces of a text between the occurrences of one character; there is always one more
piece than there are occurrences. -/
def splitAt (sep : Char) : Text → List Text
  | [] => [[]]
  | c :: cs =>
    if c = sep then [] :: splitAt sep cs
    else match splitAt sep cs with
      | [] => [[c]]
      | piece :: pieces => (c :: piece) :: pieces

/-- There is always a piece, be it empty. -/
theorem splitAt_ne_nil (sep : Char) (t : Text) : splitAt sep t ≠ [] := by
  cases t with
  | nil => simp [splitAt]
  | cons c cs =>
    rw [splitAt]
    split
    · simp
    · split <;> simp

def lines (t : Text) : List Text := splitAt '\n' t

/-- The texts one after the other, with `sep` between neighbours. -/
def join (sep : Text) : List Text → Text
  | [] => []
  | [t] => t
  | t :: u :: ts => t ++ sep ++ join sep (u :: ts)

def unlines (ts : List Text) : Text := join ['\n'] ts

/-- Splitting loses nothing: the pieces with the character between them are the text. -/
theorem join_splitAt (sep : Char) (t : Text) : join [sep] (splitAt sep t) = t := by
  induction t with
  | nil => rfl
  | cons c cs ih =>
    rw [splitAt]
    obtain ⟨piece, pieces, hp⟩ := List.exists_cons_of_ne_nil (splitAt_ne_nil sep cs)
    rw [hp] at ih ⊢
    split
    · next hc =>
      rw [join, ih, hc]
      simp
    · cases pieces with
      | nil => simpa [join] using ih
      | cons p ps =>
        rw [join] at ih ⊢
        simpa using ih

@[simp] theorem unlines_lines (t : Text) : unlines (lines t) = t := join_splitAt '\n' t

/-! ### Pieces of a text -/

/-- What stands before and after the first occurrence of `piece`, if there is one. -/
def cut? (piece : Text) : Text → Option (Text × Text)
  | [] => if piece.isEmpty then some ([], []) else none
  | c :: cs =>
    if piece.isPrefixOf (c :: cs) then some ([], (c :: cs).drop piece.length)
    else (cut? piece cs).map fun (before, after) => (c :: before, after)

def has (piece t : Text) : Bool := (cut? piece t).isSome

/-- What stands before and after the first occurrence of `piece`; all of the text stands
before it when there is none. -/
def cut (piece t : Text) : Text × Text := (cut? piece t).getD (t, [])

def eraseFirst (piece t : Text) : Text := (cut piece t).1 ++ (cut piece t).2

/-- A cut loses nothing: the text is what stands before, the piece, and what stands after. -/
theorem eq_append_of_cut? {piece t before after : Text}
    (h : cut? piece t = some (before, after)) : t = before ++ piece ++ after := by
  induction t generalizing before with
  | nil =>
    simp only [cut?] at h
    split at h
    · next hp => simp_all
    · simp at h
  | cons c cs ih =>
    simp only [cut?] at h
    split at h
    · next hp =>
      obtain ⟨rest, hrest⟩ := List.isPrefixOf_iff_prefix.1 hp
      simp only [Option.some.injEq, Prod.mk.injEq] at h
      obtain ⟨rfl, rfl⟩ := h
      rw [← hrest]
      simp
    · obtain ⟨⟨b, a⟩, hb, hba⟩ := Option.map_eq_some_iff.1 h
      simp only [Prod.mk.injEq] at hba
      obtain ⟨rfl, rfl⟩ := hba
      simp [ih hb]

/-- What is left after a non-empty piece is shorter than the text. -/
theorem length_after_lt {piece t before after : Text} (hp : piece ≠ [])
    (h : cut? piece t = some (before, after)) : after.length < t.length := by
  have := List.length_pos_iff.2 hp
  rw [eq_append_of_cut? h]
  simp only [List.length_append]
  omega

/-- The parts of a text between the occurrences of a piece, found from left to right. An
empty piece splits nothing. -/
def splitOn (piece t : Text) : List Text :=
  if hp : piece = [] then [t]
  else match h : cut? piece t with
    | none => [t]
    | some (before, after) =>
      have : after.length < t.length := length_after_lt hp h
      before :: splitOn piece after
termination_by t.length

/-- Every occurrence of `piece`, found from left to right, becomes `new`. -/
def replace (piece new t : Text) : Text := join new (splitOn piece t)

end Text

end StyleGuide
