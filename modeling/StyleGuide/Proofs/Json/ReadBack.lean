import StyleGuide.Json.Parser
import StyleGuide.Proofs.Json.Fields
import StyleGuide.Proofs.Json.Printed

/-!
# Documents read back

A printed value is read as it was printed, wherever it stands in a document: the reader gives the
value and leaves the text behind it (`Legible.readsBack`). The printer never lets two parts run
together, since what follows a value is a comma or a new line, which carries on no number. So a
whole document is read back, with the newline at its end (`parse_document`).

Not all values are legible. Doubles are left out here. A whole number can be too long to be read,
and an object comes back only if its keys are different names: all other keys are printed as names.
-/

namespace StyleGuide.Json

open Text

/-- A value that can be read as it is printed. -/
inductive Legible : Json → Prop
  | null : Legible .null
  | bool (b : Bool) : Legible (.bool b)
  | int {n : Int} : (Nat.toDigits 10 n.natAbs).length ≤ Parser.maxDigits → Legible (.int n)
  | str (s : String) : Legible (.str s)
  | arr {items : List Json} : (∀ v ∈ items, Legible v) → Legible (.arr items)
  | obj {fields : Fields} : Fields.Distinct fields → (∀ f ∈ fields, ∃ s, f.1 = .name s) →
      (∀ f ∈ fields, Legible f.2) → Legible (.obj fields)

namespace Parser

/-- Reading gives a result and leaves a rest. -/
def Reads {α : Type} {cs : Text} (outcome : Except Stop (α × Rest cs)) (a : α)
    (rest : Text) : Prop :=
  ∃ h, outcome = .ok (a, ⟨rest, h⟩)

variable {cs rest opening t : Text} {c : Char}

/-! ### Blanks and marks -/

/-- Blanks before something are skipped, and nothing else. -/
theorem skipGap_append (gap : Text) (hgap : ∀ g ∈ gap, isGap g = true) (hc : isGap c = false)
    (cs : Text) :
    ∃ h, skipGap (gap ++ c :: cs) = ⟨c :: cs, h⟩ := by
  have hdrop : (gap ++ c :: cs).dropWhile isGap = c :: cs := by
    rw [List.dropWhile_append_of_pos hgap, List.dropWhile_cons_of_neg (by simp [hc])]
  refine ⟨?_, Subtype.ext hdrop⟩
  simp

theorem skipGap_cons (hc : isGap c = false) (cs : Text) : ∃ h, skipGap (c :: cs) = ⟨c :: cs, h⟩ :=
  skipGap_append [] (by simp) hc cs

theorem isGap_newline (level : Nat) : ∀ g ∈ newline level, isGap g = true := by
  intro g hg
  rcases List.mem_cons.mp hg with rfl | hg
  · decide
  · rw [List.eq_of_mem_replicate hg]
    decide

theorem char?_self (c : Char) (cs : Text) : ∃ h, char? c (c :: cs) = some ⟨cs, h⟩ :=
  ⟨Nat.lt_succ_self _, if_pos rfl⟩

theorem char?_of_ne {d : Char} (h : d ≠ c) (cs : Text) : char? c (d :: cs) = none := if_neg h

/-! ### Strings -/

/-- Four hexadecimal digits are read back as the number that they write. -/
theorem unit_hex {n : Nat} (hn : n < 0x10000) (hcs : cs ≠ []) (start : Text) :
    ∃ h, unit start (hex 4 n ++ cs) = .ok (n, ⟨cs, h⟩) := by
  have hdigit : ∀ k < 16, hexValue? (hexDigit k) = some k := by decide
  have hvalue (k : Nat) : hexValue? (hexDigit (k % 16)) = some (k % 16) :=
    hdigit _ (Nat.mod_lt _ (by decide))
  obtain ⟨d, cs, rfl⟩ := List.exists_cons_of_ne_nil hcs
  have hhex : hex 4 n ++ d :: cs =
      hexDigit (n / 16 / 16 / 16 % 16) :: hexDigit (n / 16 / 16 % 16) ::
        hexDigit (n / 16 % 16) :: hexDigit (n % 16) :: d :: cs := rfl
  have hsum : ((n / 16 / 16 / 16 % 16 * 16 + n / 16 / 16 % 16) * 16 + n / 16 % 16) * 16 + n % 16 =
      n := by omega
  rw [hhex]
  refine ⟨by simp only [List.length_cons]; omega, ?_⟩
  simp only [unit, hvalue, hsum]

/-- A control character that is written by its number is read back. -/
theorem codePoint_hex (hc : c.toNat < 0x20) (hcs : cs ≠ []) :
    ∃ h, codePoint (hex 4 c.toNat ++ cs) = .ok (c, ⟨cs, h⟩) := by
  obtain ⟨h, hunit⟩ := unit_hex (n := c.toNat) (by omega) hcs ('u' :: (hex 4 c.toNat ++ cs))
  have hhigh : isHigh c.toNat = false := by
    simp only [isHigh, Bool.and_eq_false_iff, decide_eq_false_iff_not]
    omega
  have hlow : isLow c.toNat = false := by
    simp only [isLow, Bool.and_eq_false_iff, decide_eq_false_iff_not]
    omega
  have hofUnit : ofUnit c.toNat = c := by
    rw [ofUnit, hhigh, hlow]
    exact Char.ofNat_toNat c
  refine ⟨h, ?_⟩
  rw [codePoint, hunit]
  dsimp only
  -- A control is no first half of a character, so an escape that follows is not taken with it.
  split
  · rw [hhigh, hofUnit]
    rfl
  · rw [hofUnit]

/-- A letter behind a backslash. -/
theorem reads_letter {e d : Char} (he : e ≠ 'u') (hd : ofEscape? e = some d)
    (h : Reads (stringTail opening cs) t rest) :
      Reads (stringTail opening ('\\' :: e :: cs)) (d :: t) rest := by
  obtain ⟨hlt, h⟩ := h
  refine ⟨length_lt_cons _ (length_lt_cons _ hlt), ?_⟩
  rw [stringTail, if_neg (by decide), if_pos rfl]
  simp only [if_neg he, hd, h]

theorem reads_hex (hc : c.toNat < 0x20) (h : Reads (stringTail opening cs) t rest) :
    Reads (stringTail opening ('\\' :: 'u' :: (hex 4 c.toNat ++ cs))) (c :: t) rest := by
  obtain ⟨hlt, h⟩ := h
  -- The reader wants something behind the four digits, and there is at least the closing quote.
  have hcs : cs ≠ [] := by
    rintro rfl
    exact absurd hlt (Nat.not_lt_zero _)
  obtain ⟨hlt', hpoint⟩ := codePoint_hex hc hcs
  refine ⟨length_lt_cons _ (length_lt_cons _ (hlt.trans hlt')), ?_⟩
  rw [stringTail, if_neg (by decide), if_pos rfl]
  simp only [if_pos, hpoint, h]

/-- A character that needs no escape stands for itself. -/
theorem reads_plain (hquote : c ≠ '"') (hslash : c ≠ '\\') (hc : ¬c.toNat < 0x20)
    (h : Reads (stringTail opening cs) t rest) :
      Reads (stringTail opening (c :: cs)) (c :: t) rest := by
  obtain ⟨hlt, h⟩ := h
  refine ⟨length_lt_cons _ hlt, ?_⟩
  rw [stringTail.eq_def]
  simp only [if_neg hquote, if_neg hslash, if_neg hc, h]

/-- The three ways in which a character is written. -/
theorem escapeChar_cases (c : Char) :
    (∃ e, e ≠ 'u' ∧ ofEscape? e = some c ∧ escapeChar c = ['\\', e]) ∨
      (c.toNat < 0x20 ∧ escapeChar c = '\\' :: 'u' :: hex 4 c.toNat) ∨
      (c ≠ '"' ∧ c ≠ '\\' ∧ ¬c.toNat < 0x20 ∧ escapeChar c = [c]) := by
  unfold escapeChar
  split_ifs with hquote hn hr ht hb hf hcontrol
  · rcases hquote with rfl | rfl
    · exact .inl ⟨'"', by decide, rfl, rfl⟩
    · exact .inl ⟨'\\', by decide, rfl, rfl⟩
  · exact .inl ⟨'n', by decide, congrArg some hn.symm, rfl⟩
  · exact .inl ⟨'r', by decide, congrArg some hr.symm, rfl⟩
  · exact .inl ⟨'t', by decide, congrArg some ht.symm, rfl⟩
  · exact .inl ⟨'b', by decide, congrArg some hb.symm, rfl⟩
  · exact .inl ⟨'f', by decide, congrArg some hf.symm, rfl⟩
  · exact .inr (.inl ⟨hcontrol, rfl⟩)
  · obtain ⟨hquote, hslash⟩ := not_or.mp hquote
    exact .inr (.inr ⟨hquote, hslash, hcontrol, rfl⟩)

/-- However a character is written inside a string, it is read back. -/
theorem reads_escapeChar (c : Char) (h : Reads (stringTail opening cs) t rest) :
    Reads (stringTail opening (escapeChar c ++ cs)) (c :: t) rest := by
  obtain ⟨e, he, hescape, hc⟩ | ⟨hcontrol, hc⟩ | ⟨hquote, hslash, hcontrol, hc⟩ :=
    escapeChar_cases c
  · rw [hc]
    exact reads_letter he hescape h
  · rw [hc]
    exact reads_hex hcontrol h
  · rw [hc]
    exact reads_plain hquote hslash hcontrol h

/-- The characters of a string, up to its closing quote. -/
theorem reads_stringTail (t : Text) (opening rest : Text) :
    Reads (stringTail opening (t.flatMap escapeChar ++ '"' :: rest)) t rest := by
  induction t with
  | nil =>
    rw [List.flatMap_nil, List.nil_append]
    refine ⟨Nat.lt_succ_self _, ?_⟩
    rw [stringTail.eq_def]
    exact if_pos rfl
  | cons c t ih =>
    rw [List.flatMap_cons, List.append_assoc]
    exact reads_escapeChar c ih

/-! ### Numbers -/

/-- The decimal digits of a number give the number. -/
theorem ofDigits_toDigits (n : Nat) : ofDigits (Nat.toDigits 10 n) = n := by
  rw [ofDigits, ← Nat.ofDigitChars_eq_foldl]
  exact Nat.ofDigitChars_toDigits (by decide) (by decide)

/-- The first digit is a zero for zero only. -/
theorem toDigits_head (n : Nat) : ∃ d ds, Nat.toDigits 10 n = d :: ds ∧ (0 < n → d ≠ '0') := by
  induction n using Nat.strongRecOn with
  | ind n ih =>
    rw [Nat.toDigits_eq_if (by decide)]
    split
    · refine ⟨n.digitChar, [], rfl, ?_⟩
      rw [ne_eq, Nat.digitChar_eq_zero]
      omega
    · obtain ⟨d, ds, hds, hd⟩ := ih (n / 10) (by omega)
      rw [hds]
      exact ⟨d, ds ++ [(n % 10).digitChar], rfl, fun _ => hd (by omega)⟩

/-- A number is written in digits, and only zero with a zero in front. -/
theorem toDigits_eq_cons (n : Nat) : ∃ d ds, Nat.toDigits 10 n = d :: ds ∧ d.isDigit = true ∧
    (∀ e ∈ ds, e.isDigit = true) ∧ (0 < n → d ≠ '0') := by
  obtain ⟨d, ds, hds, hzero⟩ := toDigits_head n
  have hdigits : ∀ e ∈ d :: ds, e.isDigit = true := fun e he =>
    Nat.isDigit_of_mem_toDigits (by decide) (by decide) (hds ▸ he)
  obtain ⟨hd, hdigits⟩ := List.forall_mem_cons.mp hdigits
  exact ⟨d, ds, hds, hd, hdigits, hzero⟩

/-- The text does not carry on a number that stands before it. -/
def EndsNumber (rest : Text) : Prop := ∀ c ∈ rest.head?, c.isDigit = false ∧ c ≠ '.' ∧
    c ≠ 'e' ∧ c ≠ 'E'

theorem digits_append {ds : Text} (hds : ∀ d ∈ ds, d.isDigit = true) (hrest : EndsNumber rest) :
    (ds ++ rest).takeWhile Char.isDigit = ds ∧ (ds ++ rest).dropWhile Char.isDigit = rest := by
  rw [List.takeWhile_append_of_pos hds, List.dropWhile_append_of_pos hds]
  cases rest with
  | nil => simp
  | cons c cs =>
    have hc : ¬c.isDigit = true := by simp [(hrest c rfl).1]
    rw [List.takeWhile_cons_of_neg hc, List.dropWhile_cons_of_neg hc]
    simp

/-- The digits are read up to where the number ends. -/
theorem whole?_toDigits (n : Nat) (hrest : EndsNumber rest) :
    ∃ h, whole? (Nat.toDigits 10 n ++ rest) = some (Nat.toDigits 10 n, ⟨rest, h⟩) := by
  rcases Nat.eq_zero_or_pos n with rfl | hn
  · rw [Nat.toDigits_zero]
    exact ⟨Nat.lt_succ_self _, rfl⟩
  · obtain ⟨d, ds, hds, hd, hdigits, hzero⟩ := toDigits_eq_cons n
    rw [hds]
    obtain ⟨htake, hdrop⟩ := digits_append hdigits hrest
    refine ⟨by simp only [List.cons_append, List.length_cons, List.length_append]; omega, ?_⟩
    simp only [List.cons_append, whole?, if_neg (hzero hn), if_pos hd, htake, hdrop]

theorem fraction_of_ends (hrest : EndsNumber rest) :
    fraction rest = ([], ⟨rest, Nat.le_refl _⟩) := by
  unfold fraction
  split
  · exact absurd rfl (hrest '.' rfl).2.1
  · rfl

theorem exponent_of_ends (hrest : EndsNumber rest) :
    exponent rest = (none, ⟨rest, Nat.le_refl _⟩) := by
  cases rest with
  | nil => rfl
  | cons c cs =>
    obtain ⟨-, -, he, hE⟩ := hrest c rfl
    exact if_neg (by simp [he, hE])

theorem minus_of_ne (hc : c ≠ '-') (cs : Text) :
    minus (c :: cs) = (false, ⟨c :: cs, Nat.le_refl _⟩) := by
  rw [minus]
  rintro cs' heq
  exact hc (List.cons.inj heq).1

theorem ne_of_isDigit {d : Char} (hc : c.isDigit = true) (hd : d.isDigit = false) : c ≠ d := by
  rintro rfl
  rw [hc] at hd
  cases hd

/-- The sign of a whole number. -/
theorem minus_ofInt (n : Int) (rest : Text) :
    ∃ h, minus (Text.ofInt n ++ rest) =
      (decide (n < 0), ⟨Nat.toDigits 10 n.natAbs ++ rest, h⟩) := by
  rw [Text.ofInt]
  by_cases hn : n < 0
  · rw [if_pos hn, decide_eq_true hn]
    exact ⟨Nat.le_succ _, rfl⟩
  · obtain ⟨d, ds, hds, hd, -⟩ := toDigits_eq_cons n.natAbs
    rw [if_neg hn, decide_eq_false hn, hds]
    exact ⟨Nat.le_refl _, minus_of_ne (ne_of_isDigit hd (by decide)) _⟩

/-- A whole number that is not too long is read back. -/
theorem reads_number {n : Int} (hn : (Nat.toDigits 10 n.natAbs).length ≤ maxDigits)
    (hrest : EndsNumber rest) :
    Reads (number (Text.ofInt n ++ rest)) (.int n) rest := by
  obtain ⟨hle, hminus⟩ := minus_ofInt n rest
  obtain ⟨hlt, hwhole⟩ := whole?_toDigits n.natAbs hrest
  have hvalue : (if n < 0 then -(n.natAbs : Int) else n.natAbs) = n := by omega
  refine ⟨Nat.lt_of_lt_of_le hlt hle, ?_⟩
  unfold number
  rw [hminus]
  dsimp only
  rw [hwhole]
  dsimp only
  rw [fraction_of_ends hrest]
  dsimp only
  rw [exponent_of_ends hrest]
  dsimp only
  rw [if_pos ⟨rfl, rfl⟩, if_neg (by omega)]
  simp only [ofDigits_toDigits, decide_eq_true_eq, hvalue]

/-! ### Words -/

theorem word?_eq_none {w : Text} (h : w.isPrefixOf cs = false) : word? w cs = none :=
  dif_neg fun hw => absurd hw.1 (by simp [h])

/-- No number starts like a word that stands for a value. -/
theorem literals_start : ∀ p ∈ literals, ∃ a b w, p.1 = a :: b :: w ∧ a.isDigit = false ∧
    b.isDigit = false := by
  simp only [literals, List.forall_mem_cons]
  exact ⟨⟨'n', 'u', _, rfl, by decide, by decide⟩, ⟨'t', 'r', _, rfl, by decide, by decide⟩,
    ⟨'f', 'a', _, rfl, by decide, by decide⟩, ⟨'N', 'a', _, rfl, by decide, by decide⟩,
    ⟨'I', 'n', _, rfl, by decide, by decide⟩, ⟨'-', 'I', _, rfl, by decide, by decide⟩, by simp⟩

/-- No word starts like a number. -/
theorem literal?_eq_none (hc : c.isDigit = true) (cs : Text) :
    literal? (c :: cs) = none ∧ literal? ('-' :: c :: cs) = none := by
  have hne {d : Char} (hd : d.isDigit = false) : (d == c) = false :=
    beq_eq_false_iff_ne.mpr (ne_of_isDigit hc hd).symm
  constructor
  · rw [literal?, List.findSome?_eq_none_iff]
    rintro ⟨w, v⟩ hw
    obtain ⟨a, b, w, rfl, ha, -⟩ := literals_start _ hw
    dsimp only
    rw [word?_eq_none (by simp [List.isPrefixOf, hne ha]), Option.map_none]
  · rw [literal?, List.findSome?_eq_none_iff]
    rintro ⟨w, v⟩ hw
    obtain ⟨a, b, w, rfl, -, hb⟩ := literals_start _ hw
    dsimp only
    rw [word?_eq_none (by simp [List.isPrefixOf, hne hb]), Option.map_none]

/-- What starts with no quote or bracket is read as a word, if it is one. -/
theorem reads_word {v : Json} (hc : c ≠ '"' ∧ c ≠ '[' ∧ c ≠ '\x7b')
    (h : ∃ h, literal? (c :: cs) = some (v, ⟨rest, h⟩)) : Reads (value (c :: cs)) v rest := by
  obtain ⟨hlt, h⟩ := h
  refine ⟨hlt, ?_⟩
  rw [value, if_neg hc.1, if_neg hc.2.1, if_neg hc.2.2, h]

theorem reads_null (rest : Text) : Reads (value ('n' :: 'u' :: 'l' :: 'l' :: rest)) .null rest :=
  reads_word (by decide) ⟨by simp only [List.length_cons]; omega, rfl⟩

theorem reads_true (rest : Text) :
    Reads (value ('t' :: 'r' :: 'u' :: 'e' :: rest)) (.bool true) rest :=
  reads_word (by decide) ⟨by simp only [List.length_cons]; omega, rfl⟩

theorem reads_false (rest : Text) :
    Reads (value ('f' :: 'a' :: 'l' :: 's' :: 'e' :: rest)) (.bool false) rest :=
  reads_word (by decide) ⟨by simp only [List.length_cons]; omega, rfl⟩

theorem stringText_append (s : String) (rest : Text) :
    stringText s ++ rest = '"' :: (s.toList.flatMap escapeChar ++ '"' :: rest) := by
  simp [stringText]

/-- A string is read back up to its closing quote. -/
theorem reads_string (s : String) (rest : Text) :
    Reads (value (stringText s ++ rest)) (.str s) rest := by
  rw [stringText_append]
  obtain ⟨hlt, h⟩ := reads_stringTail s.toList
    ('"' :: (s.toList.flatMap escapeChar ++ '"' :: rest)) rest
  refine ⟨Nat.lt_succ_of_lt hlt, ?_⟩
  rw [value, if_pos rfl, h]
  dsimp only
  rw [String.ofList_toList]

/-- How a whole number starts. -/
theorem ofInt_append (n : Int) (rest : Text) :
    ∃ c cs, Text.ofInt n ++ rest = c :: cs ∧ (c = '-' ∨ c.isDigit = true) ∧
      literal? (c :: cs) = none := by
  obtain ⟨d, ds, hds, hd, -⟩ := toDigits_eq_cons n.natAbs
  obtain ⟨hplain, hminus⟩ := literal?_eq_none hd (ds ++ rest)
  rw [Text.ofInt, hds]
  split
  · exact ⟨'-', d :: (ds ++ rest), rfl, .inl rfl, hminus⟩
  · exact ⟨d, ds ++ rest, rfl, .inr hd, hplain⟩

theorem reads_int {n : Int} (hn : (Nat.toDigits 10 n.natAbs).length ≤ maxDigits)
    (hrest : EndsNumber rest) :
    Reads (value (Text.ofInt n ++ rest)) (.int n) rest := by
  have h := reads_number hn hrest
  obtain ⟨c, cs, htext, hc, hword⟩ := ofInt_append n rest
  have hne {d : Char} (hminus : d ≠ '-') (hdigit : d.isDigit = false) : c ≠ d := by
    rcases hc with rfl | hc
    · exact hminus.symm
    · exact ne_of_isDigit hc hdigit
  rw [htext] at h ⊢
  obtain ⟨hlt, h⟩ := h
  refine ⟨hlt, ?_⟩
  rw [value, if_neg (hne (by decide) (by decide)), if_neg (hne (by decide) (by decide)),
    if_neg (hne (by decide) (by decide)), hword]
  exact h

/-! ### Values -/

/-- What is no start of a value: blanks, the end of a list, and the byte order mark. -/
def noStart : Text := [' ', '\t', '\n', '\r', ']', '\ufeff']

theorem isGap_of_notMem (hc : c ∉ noStart) : isGap c = false := by
  simp only [noStart, List.mem_cons, not_or] at hc
  simp [isGap, hc]

theorem ne_bracket_of_notMem (hc : c ∉ noStart) : c ≠ ']' := by
  rintro rfl
  exact hc (by decide)

theorem notMem_of_isDigit (hc : c.isDigit = true) : c ∉ noStart := by
  simp only [noStart, List.mem_cons, List.not_mem_nil, or_false]
  rintro (rfl | rfl | rfl | rfl | rfl | rfl) <;> exact absurd hc (by decide)

/-- Wherever the value is printed, it is read back. -/
structure ReadsBack (v : Json) : Prop where
  starts : ∀ level rest, ∃ c cs, prettyOnto level v rest = c :: cs ∧ c ∉ noStart
  reads : ∀ level rest, EndsNumber rest → Reads (value (prettyOnto level v rest)) v rest

theorem endsNumber_newline (level : Nat) (rest : Text) : EndsNumber (newline level ++ rest) := by
  rintro c ⟨⟩
  decide

theorem endsNumber_comma (rest : Text) : EndsNumber (',' :: rest) := by
  rintro c ⟨⟩
  decide

/-- Behind an item comes a comma or a new line, which no number goes on with. -/
theorem endsNumber_prettyItems (level outer : Nat) (vs : List Json) (rest : Text) :
    EndsNumber (prettyItems level vs (newline outer ++ rest)) := by
  cases vs with
  | nil => exact endsNumber_newline outer rest
  | cons v vs => exact endsNumber_comma _

theorem endsNumber_prettyFields (level outer : Nat) (fs : Fields) (rest : Text) :
    EndsNumber (prettyFields level fs (newline outer ++ rest)) := by
  cases fs with
  | nil => exact endsNumber_newline outer rest
  | cons f fs => exact endsNumber_comma _

theorem items_last {v : Json} {outer : Nat}
    (hv : Reads (value cs) v (newline outer ++ ']' :: rest)) :
    Reads (items cs) [v] rest := by
  obtain ⟨hlt, hv⟩ := hv
  obtain ⟨hle, hgap⟩ := skipGap_append _ (isGap_newline outer) (c := ']') (by decide) rest
  obtain ⟨hlt', hclose⟩ := char?_self ']' rest
  refine ⟨by omega, ?_⟩
  rw [items, hv]
  dsimp only
  rw [hgap]
  dsimp only
  rw [hclose]

/-- An item, a comma and a new line, and the further items. -/
theorem items_cons {v : Json} {vs : List Json} {level : Nat} {more : Text} (hc : isGap c = false)
    (hv : Reads (value cs) v (',' :: (newline level ++ c :: more)))
    (hvs : Reads (items (c :: more)) vs rest) :
    Reads (items cs) (v :: vs) rest := by
  obtain ⟨hlt, hv⟩ := hv
  obtain ⟨hlt', hvs⟩ := hvs
  obtain ⟨_, hnogap⟩ := skipGap_cons (c := ',') (by decide) (newline level ++ c :: more)
  obtain ⟨hlt'', hcomma⟩ := char?_self ',' (newline level ++ c :: more)
  obtain ⟨hle, hgap⟩ := skipGap_append _ (isGap_newline level) hc more
  refine ⟨by omega, ?_⟩
  rw [items, hv]
  dsimp only
  rw [hnogap]
  dsimp only
  rw [char?_of_ne (by decide), hcomma]
  dsimp only
  rw [hgap]
  dsimp only
  rw [hvs]

/-- A list from its first item on. -/
theorem reads_items {v : Json} {vs : List Json} (hv : ReadsBack v) (hvs : ∀ u ∈ vs, ReadsBack u)
    (level outer : Nat) (rest : Text) :
    Reads (items (prettyOnto level v (prettyItems level vs (newline outer ++ ']' :: rest))))
      (v :: vs) rest := by
  induction vs generalizing v with
  | nil => exact items_last (hv.reads level _ (endsNumber_newline outer _))
  | cons u us ih =>
    obtain ⟨hu, hus⟩ := List.forall_mem_cons.mp hvs
    have hmore := ih hu hus
    obtain ⟨c, cs, hstart, hc⟩ :=
      hu.starts level (prettyItems level us (newline outer ++ ']' :: rest))
    have hfirst := hv.reads level _ (endsNumber_prettyItems level outer (u :: us) (']' :: rest))
    rw [prettyItems, hstart] at hfirst ⊢
    rw [hstart] at hmore
    exact items_cons (isGap_of_notMem hc) hfirst hmore

/-- A field, up to the mark behind its value: there the object ends or goes on. -/
theorem reads_field {v : Json} {left : Text} (s : String) (hc : isGap c = false)
    (hv : Reads (value (c :: cs)) v left) :
    (∀ outer rest, left = newline outer ++ '\x7d' :: rest →
      Reads (fields (stringText s ++ ':' :: ' ' :: c :: cs)) [(.name s, v)] rest) ∧
    ∀ level d more fs rest, isGap d = false → left = ',' :: (newline level ++ d :: more) →
      Reads (fields (d :: more)) fs rest →
      Reads (fields (stringText s ++ ':' :: ' ' :: c :: cs)) ((.name s, v) :: fs) rest := by
  obtain ⟨hlt, hv⟩ := hv
  obtain ⟨hlt₁, hquote⟩ :=
    char?_self '"' (s.toList.flatMap escapeChar ++ '"' :: ':' :: ' ' :: c :: cs)
  obtain ⟨hlt₂, hstring⟩ := reads_stringTail s.toList
    ('"' :: (s.toList.flatMap escapeChar ++ '"' :: ':' :: ' ' :: c :: cs)) (':' :: ' ' :: c :: cs)
  obtain ⟨_, hnogap⟩ := skipGap_cons (c := ':') (by decide) (' ' :: c :: cs)
  obtain ⟨hlt₃, hcolon⟩ := char?_self ':' (' ' :: c :: cs)
  obtain ⟨hle, hblank⟩ : ∃ h, skipGap (' ' :: c :: cs) = ⟨c :: cs, h⟩ :=
    skipGap_append [' '] (by simp [isGap]) hc cs
  -- Up to the mark the reader does the same in both cases.
  rw [stringText_append, fields, hquote]
  dsimp only
  rw [hstring]
  dsimp only
  rw [hnogap]
  dsimp only
  rw [hcolon]
  dsimp only
  rw [hblank]
  dsimp only
  rw [hv]
  dsimp only
  rw [String.ofList_toList]
  constructor
  · rintro outer rest rfl
    obtain ⟨hle', hgap⟩ := skipGap_append _ (isGap_newline outer) (c := '\x7d') (by decide) rest
    obtain ⟨hlt₄, hclose⟩ := char?_self '\x7d' rest
    rw [hgap]
    dsimp only
    rw [hclose]
    exact ⟨by omega, rfl⟩
  · rintro level d more fs rest hd rfl ⟨hlt₄, hfs⟩
    obtain ⟨_, hnogap'⟩ := skipGap_cons (c := ',') (by decide) (newline level ++ d :: more)
    obtain ⟨hlt₅, hcomma⟩ := char?_self ',' (newline level ++ d :: more)
    obtain ⟨hle', hgap⟩ := skipGap_append _ (isGap_newline level) hd more
    rw [hnogap']
    dsimp only
    rw [char?_of_ne (by decide), hcomma]
    dsimp only
    rw [hgap]
    dsimp only
    rw [hfs]
    exact ⟨by omega, rfl⟩

theorem keyString_name (s : String) : keyString (.name s) = stringText s := by
  rw [keyString, keyText, String.ofList_toList]

/-- An object from its first field on. -/
theorem reads_fields {s : String} {v : Json} {fs : Fields} (hv : ReadsBack v)
    (hnames : ∀ f ∈ fs, ∃ s, f.1 = .name s) (hfs : ∀ f ∈ fs, ReadsBack f.2) (level outer : Nat)
    (rest : Text) :
    Reads (fields (keyString (.name s) ++ ':' :: ' ' :: prettyOnto level v
      (prettyFields level fs (newline outer ++ '\x7d' :: rest)))) ((.name s, v) :: fs) rest := by
  rw [keyString_name]
  induction fs generalizing s v with
  | nil =>
    have hvalue := hv.reads level _ (endsNumber_newline outer ('\x7d' :: rest))
    obtain ⟨c, cs, hstart, hc⟩ := hv.starts level (newline outer ++ '\x7d' :: rest)
    rw [prettyFields, hstart]
    rw [hstart] at hvalue
    exact (reads_field s (isGap_of_notMem hc) hvalue).1 outer rest rfl
  | cons f fs ih =>
    obtain ⟨⟨u, hname⟩, hothers⟩ := List.forall_mem_cons.mp hnames
    obtain ⟨hf, hrest⟩ := List.forall_mem_cons.mp hfs
    obtain ⟨key, value⟩ := f
    obtain rfl : key = .name u := hname
    have hvalue := hv.reads level _
      (endsNumber_prettyFields level outer ((.name u, value) :: fs) ('\x7d' :: rest))
    obtain ⟨c, cs, hstart, hc⟩ := hv.starts level
      (prettyFields level ((.name u, value) :: fs) (newline outer ++ '\x7d' :: rest))
    have hmore := ih (s := u) hf hothers hrest
    rw [hstart]
    rw [hstart, prettyFields, keyString_name, List.append_assoc, stringText_append] at hvalue
    rw [stringText_append] at hmore
    exact (reads_field s (isGap_of_notMem hc) hvalue).2 level '"' _ _ rest (by decide) rfl hmore

theorem value_emptyList (rest : Text) : Reads (value ('[' :: ']' :: rest)) (.arr []) rest := by
  obtain ⟨hle, hgap⟩ := skipGap_cons (c := ']') (by decide) rest
  obtain ⟨hlt, hclose⟩ := char?_self ']' rest
  refine ⟨by simp only [List.length_cons]; omega, ?_⟩
  rw [value, if_neg (by decide), if_pos rfl, hgap]
  dsimp only
  rw [hclose]

/-- A list is read from its first item on. -/
theorem value_list {vs : List Json} {level : Nat} (hc : isGap c = false) (hbracket : c ≠ ']')
    (h : Reads (items (c :: cs)) vs rest) :
      Reads (value ('[' :: (newline level ++ c :: cs))) (.arr vs) rest := by
  obtain ⟨hlt, h⟩ := h
  obtain ⟨hle, hgap⟩ := skipGap_append _ (isGap_newline level) hc cs
  refine ⟨by simp only [List.length_cons] at *; omega, ?_⟩
  rw [value, if_neg (by decide), if_pos rfl, hgap]
  dsimp only
  rw [char?_of_ne hbracket, h]

theorem value_emptyObject (rest : Text) :
    Reads (value ('\x7b' :: '\x7d' :: rest)) (.obj []) rest := by
  obtain ⟨hle, hgap⟩ := skipGap_cons (c := '\x7d') (by decide) rest
  obtain ⟨hlt, hclose⟩ := char?_self '\x7d' rest
  refine ⟨by simp only [List.length_cons]; omega, ?_⟩
  rw [value, if_neg (by decide), if_neg (by decide), if_pos rfl, hgap]
  dsimp only
  rw [hclose]

/-- An object is read from its first key on; fields of the same key would be joined. -/
theorem value_object {fs : Fields} (level : Nat) (h : Reads (fields ('"' :: cs)) fs rest) :
    Reads (value ('\x7b' :: (newline level ++ '"' :: cs))) (.obj (Fields.update [] fs)) rest := by
  obtain ⟨hlt, h⟩ := h
  obtain ⟨hle, hgap⟩ := skipGap_append _ (isGap_newline level) (c := '"') (by decide) cs
  refine ⟨by simp only [List.length_cons] at *; omega, ?_⟩
  rw [value, if_neg (by decide), if_neg (by decide), if_pos rfl, hgap]
  dsimp only
  rw [char?_of_ne (by decide), h]

/-! ### Reading undoes printing -/

theorem readsBack_int {n : Int} (hn : (Nat.toDigits 10 n.natAbs).length ≤ maxDigits) :
    ReadsBack (.int n) := by
  refine ⟨?_, fun level rest hrest => reads_int hn hrest⟩
  intro level rest
  obtain ⟨c, cs, htext, hc, -⟩ := ofInt_append n rest
  refine ⟨c, cs, htext, ?_⟩
  rcases hc with rfl | hc
  · decide
  · exact notMem_of_isDigit hc

/-- A list is read back if its items are. -/
theorem readsBack_arr {vs : List Json} (hvs : ∀ v ∈ vs, ReadsBack v) : ReadsBack (.arr vs) := by
  cases vs with
  | nil => exact ⟨fun _ rest => ⟨'[', ']' :: rest, rfl, by decide⟩,
      fun _ rest _ => value_emptyList rest⟩
  | cons v vs =>
    refine ⟨fun _ _ => ⟨'[', _, rfl, by decide⟩, ?_⟩
    intro level rest _
    obtain ⟨hv, hvs⟩ := List.forall_mem_cons.mp hvs
    have hitems := reads_items hv hvs (level + 1) level rest
    obtain ⟨c, cs, hstart, hc⟩ := hv.starts (level + 1)
      (prettyItems (level + 1) vs (newline level ++ ']' :: rest))
    rw [prettyOnto, hstart]
    rw [hstart] at hitems
    exact value_list (isGap_of_notMem hc) (ne_bracket_of_notMem hc) hitems

/-- An object is read back if its values are, and its keys are different names. -/
theorem readsBack_obj {fs : Fields} (hdistinct : fs.Distinct)
    (hnames : ∀ f ∈ fs, ∃ s, f.1 = .name s)
    (hfs : ∀ f ∈ fs, ReadsBack f.2) : ReadsBack (.obj fs) := by
  cases fs with
  | nil => exact ⟨fun _ rest => ⟨'\x7b', '\x7d' :: rest, rfl, by decide⟩,
      fun _ rest _ => value_emptyObject rest⟩
  | cons f fs =>
    refine ⟨fun _ _ => ⟨'\x7b', _, rfl, by decide⟩, ?_⟩
    intro level rest _
    obtain ⟨⟨s, hname⟩, hothers⟩ := List.forall_mem_cons.mp hnames
    obtain ⟨hf, hrest⟩ := List.forall_mem_cons.mp hfs
    obtain ⟨key, v⟩ := f
    obtain rfl : key = .name s := hname
    have hfields := reads_fields (s := s) hf hothers hrest (level + 1) level rest
    rw [keyString_name, stringText_append] at hfields
    have hobject := value_object (level + 1) hfields
    rw [Fields.update_of_distinct (by exact hdistinct), List.nil_append] at hobject
    rw [prettyOnto, List.append_assoc, keyString_name, stringText_append]
    exact hobject

/-- A text that is a value and a newline. -/
theorem document_eq_ok {v : Json} (hc : c ∉ noStart) (h : Reads (value (c :: cs)) v ['\n']) :
    Parser.document (c :: cs) = .ok v := by
  obtain ⟨_, hgap⟩ := skipGap_cons (isGap_of_notMem hc) cs
  obtain ⟨_, hvalue⟩ : Reads (value (skipGap (c :: cs)).1) v ['\n'] := by
    rw [hgap]
    exact h
  rw [Parser.document, hvalue]
  · rfl
  · rintro cs' heq
    rw [(List.cons.inj heq).1] at hc
    exact hc (by decide)

end Parser

/-- By induction on the value: what can be read is read back. -/
theorem Legible.readsBack {v : Json} (h : Legible v) : Parser.ReadsBack v := by
  induction h with
  | null => exact ⟨fun _ _ => ⟨'n', _, rfl, by decide⟩, fun _ rest _ => Parser.reads_null rest⟩
  | bool b =>
    cases b with
    | true => exact ⟨fun _ _ => ⟨'t', _, rfl, by decide⟩, fun _ rest _ => Parser.reads_true rest⟩
    | false => exact ⟨fun _ _ => ⟨'f', _, rfl, by decide⟩, fun _ rest _ => Parser.reads_false rest⟩
  | int hn => exact Parser.readsBack_int hn
  | str s =>
    exact ⟨fun _ rest => ⟨'"', _, Parser.stringText_append s rest, by decide⟩,
      fun _ rest _ => Parser.reads_string s rest⟩
  | arr _ ih => exact Parser.readsBack_arr ih
  | obj hdistinct hnames _ ih => exact Parser.readsBack_obj hdistinct hnames ih

mutual

/-- A value in front of a text is the value in front of the start of the text. -/
theorem prettyOnto_append (level : Nat) : ∀ (v : Json) (rest more : Text),
    prettyOnto level v rest ++ more = prettyOnto level v (rest ++ more)
  | .null, rest, more => List.append_assoc ..
  | .bool _, rest, more => List.append_assoc ..
  | .int _, rest, more => List.append_assoc ..
  | .double _, rest, more => List.append_assoc ..
  | .str _, rest, more => List.append_assoc ..
  | .arr [], rest, more => rfl
  | .arr (v :: vs), rest, more => by
    simp [prettyOnto, prettyOnto_append (level + 1) v, prettyItems_append (level + 1) vs]
  | .obj [], rest, more => rfl
  | .obj ((k, v) :: fs), rest, more => by
    simp [prettyOnto, prettyOnto_append (level + 1) v, prettyFields_append (level + 1) fs]
  | .code source escaped, rest, more => by
    simp [prettyOnto, prettyOnto_append level source, prettyOnto_append level escaped]

theorem prettyItems_append (level : Nat) : ∀ (vs : List Json) (rest more : Text),
    prettyItems level vs rest ++ more = prettyItems level vs (rest ++ more)
  | [], rest, more => rfl
  | v :: vs, rest, more => by
      simp [prettyItems, prettyOnto_append level v, prettyItems_append level vs]

theorem prettyFields_append (level : Nat) : ∀ (fs : List (Key × Json)) (rest more : Text),
    prettyFields level fs rest ++ more = prettyFields level fs (rest ++ more)
  | [], rest, more => rfl
  | (k, v) :: fs, rest, more => by
      simp [prettyFields, prettyOnto_append level v, prettyFields_append level fs]

end

/-- **Reading undoes writing.** A document as it is written, its text and a newline, is read as its
value. -/
theorem parse_document {v : Json} {text : Text} (hv : Legible v) (htext : v.document = .ok text) :
    parse (text ++ ['\n']) = .ok v := by
  have hpretty : text ++ ['\n'] = prettyOnto 0 v ['\n'] := by
    unfold document at htext
    split at htext
    · cases htext
      exact prettyOnto_append 0 v [] ['\n']
    · cases htext
  have hreads := hv.readsBack.reads 0 ['\n'] (Parser.endsNumber_newline 0 [])
  obtain ⟨c, cs, hstart, hc⟩ := hv.readsBack.starts 0 ['\n']
  rw [hstart] at hreads
  rw [hpretty, hstart, parse, Parser.document_eq_ok hc hreads]

end StyleGuide.Json
