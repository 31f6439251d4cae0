import StyleGuide.Json.Shape
import StyleGuide.Proofs.Comment.Segments
import StyleGuide.Proofs.Text.Pieces
import StyleGuide.Tag.Reader

/-!
# Written documents hold no comments

Whatever texts a document takes from its sources, it writes them inside of strings, in which line
ends are escaped. So on each line of a written document something stands before the first slash, and
no line opens a comment (`Quiet.isCalm`). Read as a source, a document has no fragments
(`ofSource_document`).
-/

namespace StyleGuide

open Text

/-! ### Texts without comments -/

/-- The text has no carriage return and no slash that would be the first character of its line,
blanks aside. The flag says whether something stands on the line already. -/
def Text.Quiet : (started : Bool) → Text → Prop
  | _, [] => True
  | started, c :: cs =>
    c ≠ '\r' ∧ (c = '/' → started = true) ∧
      Quiet (if c = '\n' then false else started || !isBlank c) cs

def Text.isSolid (t : Text) : Bool := t.all fun c => !isBlank c && c != '/'

theorem Text.isSolid_iff {t : Text} : isSolid t = true ↔ ∀ c ∈ t, isBlank c = false ∧ c ≠ '/' := by
  simp [isSolid]

theorem Text.isSolid_append {s t : Text} : isSolid (s ++ t) = (isSolid s && isSolid t) :=
    List.all_append

theorem Text.ne_of_not_isBlank {c : Char} (h : isBlank c = false) : c ≠ '\n' ∧ c ≠ '\r' := by
  constructor
  · rintro rfl
    exact absurd h (by decide)
  · rintro rfl
    exact absurd h (by decide)

namespace Text.Quiet

variable {started : Bool} {t rest : Text}

theorem notMem_return (h : Quiet started t) : '\r' ∉ t := by
  induction t generalizing started with
  | nil => exact List.not_mem_nil
  | cons c cs ih =>
    obtain ⟨hc, -, hcs⟩ := h
    rw [List.mem_cons, not_or]
    exact ⟨Ne.symm hc, ih hcs⟩

theorem concat_newline (h : Quiet started t) : Quiet started (t ++ ['\n']) := by
  induction t generalizing started with
  | nil => exact ⟨by decide, fun hc => absurd hc (by decide), trivial⟩
  | cons c cs ih => exact ⟨h.1, h.2.1, ih h.2.2⟩

/-- Behind a character that starts the line, the rest of the line is free. -/
theorem append_inLine (ht : ∀ c ∈ t, c ≠ '\n' ∧ c ≠ '\r') (h : Quiet true rest) :
    Quiet true (t ++ rest) := by
  induction t with
  | nil => exact h
  | cons c cs ih =>
    obtain ⟨⟨hnewline, hreturn⟩, hcs⟩ := List.forall_mem_cons.mp ht
    refine ⟨hreturn, fun _ => rfl, ?_⟩
    rw [if_neg hnewline, Bool.true_or]
    exact ih hcs

/-- A character that is neither blank nor a slash starts the line. -/
theorem cons {c : Char} (hblank : isBlank c = false) (hslash : c ≠ '/') (h : Quiet true rest) :
    Quiet started (c :: rest) := by
  obtain ⟨hnewline, hreturn⟩ := ne_of_not_isBlank hblank
  refine ⟨hreturn, fun hc => absurd hc hslash, ?_⟩
  rw [if_neg hnewline, hblank, Bool.not_false, Bool.or_true]
  exact h

/-- A solid text keeps a line quiet, and so does what follows it there. -/
theorem append_solid (hne : t ≠ []) (ht : isSolid t = true) (h : Quiet true rest) :
    Quiet started (t ++ rest) := by
  obtain ⟨c, cs, rfl⟩ := List.exists_cons_of_ne_nil hne
  obtain ⟨⟨hblank, hslash⟩, hcs⟩ := List.forall_mem_cons.mp (isSolid_iff.mp ht)
  apply cons hblank hslash
  apply append_inLine _ h
  intro d hd
  exact ne_of_not_isBlank (hcs d hd).1

/-- A new line has to be quiet again. -/
theorem append_newline (level : Nat) (h : Quiet false rest) :
    Quiet started (Json.newline level ++ rest) := by
  refine ⟨by decide, fun hc => absurd hc (by decide), ?_⟩
  rw [if_pos rfl]
  induction 2 * level with
  | zero => exact h
  | succ n ih => exact ⟨by decide, fun hc => absurd hc (by decide), ih⟩

end Text.Quiet

/-! ### Numbers -/

theorem Text.isSolid_of_digits {t : Text} (h : ∀ c ∈ t, c.isDigit = true) : isSolid t = true := by
  rw [isSolid_iff]
  intro c hc
  have hdigit := h c hc
  simp only [Char.isDigit, Bool.and_eq_true, decide_eq_true_eq, ge_iff_le,
    UInt32.le_iff_toNat_le] at hdigit
  have hlow : 48 ≤ c.toNat := hdigit.1
  have hhigh : c.toNat ≤ 57 := hdigit.2
  constructor
  · simp only [isBlank, Bool.or_eq_false_iff, Bool.and_eq_false_iff, decide_eq_false_iff_not,
      beq_eq_false_iff_ne]
    omega
  · rintro rfl
    exact absurd hlow (by decide)

theorem isSolid_toDigits (n : Nat) : isSolid (Nat.toDigits 10 n) = true :=
  isSolid_of_digits fun _ hc => Nat.isDigit_of_mem_toDigits (by decide) (by decide) hc

theorem isSolid_ofInt (n : Int) : isSolid (Text.ofInt n) = true := by
  rw [Text.ofInt, isSolid_append, isSolid_toDigits, Bool.and_true]
  split <;> rfl

theorem ofInt_ne_nil (n : Int) : Text.ofInt n ≠ [] := by
  intro h
  have hdigits : Nat.toDigits 10 n.natAbs = [] := (List.append_eq_nil_iff.mp h).2
  exact Nat.toDigits_ne_nil hdigits

theorem isSolid_replicate_zero (n : Nat) : isSolid (List.replicate n '0') = true := by
  rw [isSolid_iff]
  intro c hc
  rw [List.eq_of_mem_replicate hc]
  decide

theorem isSolid_of_subset {s t : Text} (h : s ⊆ t) (ht : isSolid t = true) : isSolid s = true := by
  rw [isSolid_iff] at ht ⊢
  exact fun c hc => ht c (h hc)

namespace Double

/-- The digits of a double have neither blanks nor slashes. -/
theorem isSolid_shortest (x : Double) : isSolid x.shortest.1 = true := by
  have hdigits := isSolid_toDigits
    (searchGrid x.interval (leadingExponent x.interval.value x.interval.unit) 1 17).digits
  refine isSolid_of_subset ?_ hdigits
  intro c hc
  exact List.mem_reverse.mp ((List.dropWhile_sublist _).subset (List.mem_reverse.mp hc))

theorem isSolid_positional {digits : Text} (h : isSolid digits = true) (e : Int) :
    isSolid (positional digits e) = true := by
  have htake (n : Nat) : isSolid (digits.take n) = true :=
    isSolid_of_subset (List.take_subset n digits) h
  have hdrop (n : Nat) : isSolid (digits.drop n) = true :=
    isSolid_of_subset (List.drop_subset n digits) h
  unfold positional
  split
  · rw [isSolid_append, isSolid_append, isSolid_replicate_zero, h]
    rfl
  · dsimp only
    rw [isSolid_append, isSolid_append, isSolid_append, isSolid_replicate_zero, htake]
    split
    · rfl
    · rw [hdrop]
      rfl

theorem isSolid_scientific {digits : Text} (h : isSolid digits = true) (e : Int) :
    isSolid (scientific digits e) = true := by
  have htake : isSolid (digits.take 1) = true := isSolid_of_subset (List.take_subset 1 digits) h
  have hdrop : isSolid (digits.drop 1) = true := isSolid_of_subset (List.drop_subset 1 digits) h
  have hfraction : isSolid (if (digits.drop 1).isEmpty then [] else '.' :: digits.drop 1) =
      true := by
    split
    · rfl
    · exact hdrop
  have hwidth : isSolid (if (Nat.toDigits 10 e.natAbs).length < 2
      then '0' :: Nat.toDigits 10 e.natAbs else Nat.toDigits 10 e.natAbs) = true := by
    split
    · exact isSolid_toDigits _
    · exact isSolid_toDigits _
  have hsign : isSolid ['e', if e < 0 then '-' else '+'] = true := by
    split <;> rfl
  unfold scientific
  dsimp only
  rw [isSolid_append, isSolid_append, isSolid_append, htake, hfraction, hsign, hwidth]
  rfl

/-- The text of a double, with special values that have neither blanks nor slashes. -/
theorem isSolid_render {special : SpecialTexts} (hinfinity : isSolid special.infinity = true)
    (hnan : isSolid special.nan = true) (x : Double) : isSolid (x.render special) = true := by
  unfold render
  split
  · exact hnan
  · rw [isSolid_append, Bool.and_eq_true]
    refine ⟨by split <;> rfl, ?_⟩
    split
    · exact hinfinity
    · split
      · rfl
      · dsimp only
        split
        · exact isSolid_positional x.isSolid_shortest _
        · exact isSolid_scientific x.isSolid_shortest _

theorem render_ne_nil {special : SpecialTexts} (hinfinity : special.infinity ≠ [])
    (hnan : special.nan ≠ []) (x : Double) : x.render special ≠ [] := by
  unfold render
  split
  · exact hnan
  · intro h
    have h := (List.append_eq_nil_iff.mp h).2
    split at h
    · exact hinfinity h
    · split at h
      · cases h
      · dsimp only at h
        split at h
        · unfold positional at h
          split at h <;> simp at h
        · unfold scientific at h
          simp at h

end Double

/-! ### Documents -/

namespace Json

theorem inLine_hex (width n : Nat) : ∀ c ∈ Text.hex width n, c ≠ '\n' ∧ c ≠ '\r' := by
  have hdigit : ∀ k < 16, Text.hexDigit k ≠ '\n' ∧ Text.hexDigit k ≠ '\r' := by decide
  induction width generalizing n with
  | zero => exact fun c hc => absurd hc List.not_mem_nil
  | succ width ih =>
    intro c hc
    rcases List.mem_append.mp hc with hc | hc
    · exact ih (n / 16) c hc
    · rw [List.mem_singleton.mp hc]
      exact hdigit _ (Nat.mod_lt _ (by decide))

/-- Escaped characters stay on their line. -/
theorem inLine_escapeChar (d : Char) : ∀ c ∈ escapeChar d, c ≠ '\n' ∧ c ≠ '\r' := by
  have hpair {x : Char} (hx : x ≠ '\n' ∧ x ≠ '\r') : ∀ c ∈ ['\\', x], c ≠ '\n' ∧ c ≠ '\r' := by
    intro c hc
    rcases List.mem_cons.mp hc with rfl | hc
    · decide
    · rw [List.mem_singleton.mp hc]
      exact hx
  unfold escapeChar
  split
  · next hd =>
    rcases hd with rfl | rfl
    · exact hpair (by decide)
    · exact hpair (by decide)
  · split
    · exact hpair (by decide)
    · next hnewline =>
      split
      · exact hpair (by decide)
      · next hreturn =>
        repeat' split
        · exact hpair (by decide)
        · exact hpair (by decide)
        · exact hpair (by decide)
        · intro c hc
          rcases List.mem_append.mp hc with hc | hc
          · exact hpair (by decide) c hc
          · exact inLine_hex 4 d.toNat c hc
        · intro c hc
          rw [List.mem_singleton.mp hc]
          exact ⟨hnewline, hreturn⟩

/-- A string starts with a quote, so that slashes in it start no line. -/
theorem quiet_stringText (s : String) {started : Bool} {rest : Text} (h : Quiet true rest) :
    Quiet started (stringText s ++ rest) := by
  rw [stringText, List.append_assoc, List.append_assoc]
  apply Quiet.cons (by decide) (by decide)
  show Quiet true (s.toList.flatMap escapeChar ++ '"' :: rest)
  apply Quiet.append_inLine _ (Quiet.cons (by decide) (by decide) h)
  intro c hc
  obtain ⟨d, -, hd⟩ := List.mem_flatMap.mp hc
  exact inLine_escapeChar d c hd

/-- A field up to its value. -/
theorem quiet_keyString (k : Key) {rest : Text} (h : Quiet true rest) :
    Quiet false (keyString k ++ ':' :: ' ' :: rest) := by
  apply quiet_stringText
  exact Quiet.append_inLine (t := [':', ' ']) (by simp) h

mutual

/-- The text of a value starts its line, wherever it stands, and opens no comment. -/
theorem quiet_prettyOnto (level : Nat) {started : Bool} : ∀ (v : Json) {rest : Text},
    Quiet true rest → Quiet started (prettyOnto level v rest)
  | .null, _, h => Quiet.append_solid (by decide) (by decide) h
  | .bool true, _, h => Quiet.append_solid (by decide) (by decide) h
  | .bool false, _, h => Quiet.append_solid (by decide) (by decide) h
  | .int n, _, h => Quiet.append_solid (ofInt_ne_nil n) (isSolid_ofInt n) h
  | .double x, _, h =>
    Quiet.append_solid (x.render_ne_nil (by decide) (by decide))
      (x.isSolid_render (by decide) (by decide)) h
  | .str s, _, h => quiet_stringText s h
  | .arr [], _, h => Quiet.append_solid (t := ['[', ']']) (by decide) (by decide) h
  | .arr (v :: vs), rest, h => by
    have hclose : Quiet true (newline level ++ ']' :: rest) :=
      Quiet.append_newline level (Quiet.cons (by decide) (by decide) h)
    apply Quiet.cons (by decide) (by decide)
    apply Quiet.append_newline
    exact quiet_prettyOnto (level + 1) v (quiet_prettyItems (level + 1) vs hclose)
  | .obj [], _, h => Quiet.append_solid (t := ['\x7b', '\x7d']) (by decide) (by decide) h
  | .obj ((k, v) :: fs), rest, h => by
    have hclose : Quiet true (newline level ++ '\x7d' :: rest) :=
      Quiet.append_newline level (Quiet.cons (by decide) (by decide) h)
    apply Quiet.cons (by decide) (by decide)
    rw [List.append_assoc]
    apply Quiet.append_newline
    apply quiet_keyString
    exact quiet_prettyOnto (level + 1) v (quiet_prettyFields (level + 1) fs hclose)
  | .code source escaped, _, h => quiet_prettyOnto level source (quiet_prettyOnto level escaped h)

theorem quiet_prettyItems (level : Nat) : ∀ (vs : List Json) {rest : Text}, Quiet true rest →
    Quiet true (prettyItems level vs rest)
  | [], _, h => h
  | v :: vs, _, h => by
    apply Quiet.cons (by decide) (by decide)
    apply Quiet.append_newline
    exact quiet_prettyOnto level v (quiet_prettyItems level vs h)

/-- Every field starts its line with the quote of its key. -/
theorem quiet_prettyFields (level : Nat) : ∀ (fs : List (Key × Json)) {rest : Text},
    Quiet true rest → Quiet true (prettyFields level fs rest)
  | [], _, h => h
  | (k, v) :: fs, _, h => by
    apply Quiet.cons (by decide) (by decide)
    rw [List.append_assoc]
    apply Quiet.append_newline
    apply quiet_keyString
    exact quiet_prettyOnto level v (quiet_prettyFields level fs h)

end

/-- A document as it is written: its text and a newline. -/
theorem quiet_document {v : Json} {text : Text} (h : v.document = .ok text) :
    Quiet false (text ++ ['\n']) := by
  unfold document at h
  split at h
  · cases h
    have hnil : Quiet true [] := trivial
    exact (quiet_prettyOnto 0 v hnil).concat_newline
  · cases h

end Json

/-! ### Documents as sources -/

/-- The line has no slash at its start, blanks aside. -/
def Text.IsCalm (line : Text) : Prop := (trimStart line).head? ≠ some '/'

theorem Text.isCalm_nil : IsCalm [] := by
  simp [IsCalm, trimStart]

/-- All lines of a quiet text are calm, but for the first if something stands before it. -/
theorem Text.Quiet.isCalm {t l : Text} {ls : List Text} {started : Bool} (h : Quiet started t)
    (hlines : lines t = l :: ls) : (∀ m ∈ ls, IsCalm m) ∧ (started = false → IsCalm l) := by
  induction t generalizing started l ls with
  | nil =>
    cases hlines
    exact ⟨fun m hm => absurd hm List.not_mem_nil, fun _ => isCalm_nil⟩
  | cons c cs ih =>
    obtain ⟨-, hslash, hcs⟩ := h
    obtain ⟨m, ms, hm⟩ := List.exists_cons_of_ne_nil (splitAt_ne_nil '\n' cs)
    obtain ⟨hms, hfirst⟩ := ih hcs hm
    rw [lines, splitAt, hm] at hlines
    split at hlines
    · next hc =>
      cases hlines
      rw [if_pos hc] at hfirst
      refine ⟨?_, fun _ => isCalm_nil⟩
      intro k hk
      rcases List.mem_cons.mp hk with rfl | hk
      · exact hfirst rfl
      · exact hms k hk
    · next hc =>
      cases hlines
      rw [if_neg hc] at hfirst
      refine ⟨hms, ?_⟩
      rintro rfl
      -- A blank leaves the line to what comes behind it.
      by_cases hblank : isBlank c = true
      · have hcalm := hfirst (by simp [hblank])
        rwa [IsCalm, trimStart, List.dropWhile_cons_of_pos hblank]
      · rw [IsCalm, trimStart, List.dropWhile_cons_of_neg hblank]
        intro hhead
        exact absurd (hslash (Option.some.inj hhead)) (by decide)

/-- No comment opens on a calm line. -/
theorem afterMarker?_of_isCalm {l : Text} (h : IsCalm l) (c : Char) :
    Comment.afterMarker? ['/', c] l = none := by
  unfold Comment.afterMarker?
  dsimp only
  rw [if_neg]
  intro hmarker
  obtain ⟨rest, hrest⟩ := List.isPrefixOf_iff_prefix.mp hmarker
  apply h
  rw [← hrest]
  rfl

/-- Lines that start no comment leave the extractor outside of comments, with the blocks that it
has. -/
theorem Comment.Extractor.foldl_feed_calm {ls : List Text} (hls : ∀ l ∈ ls, IsCalm l)
    {x : Extractor} (hx : x.phase = .idle) :
    (ls.foldl feed x).phase = .idle ∧ (ls.foldl feed x).blocks = x.blocks := by
  induction ls generalizing x with
  | nil => exact ⟨hx, rfl⟩
  | cons l ls ih =>
    obtain ⟨hl, hls⟩ := List.forall_mem_cons.mp hls
    have hopens : opensBlock l = false := by rw [opensBlock, afterMarker?_of_isCalm hl]; rfl
    have hline : isLineComment l = false := by rw [isLineComment, afterMarker?_of_isCalm hl]; rfl
    rw [List.foldl_cons, feed_skipped hx hopens hline]
    exact ih hls hx

theorem Comment.sourceLines_of_notMem {t : Text} (h : '\r' ∉ t) : sourceLines t = lines t := by
  have hline : ∀ l ∈ lines t, dropEndWhile (· == '\r') l = l := by
    intro l hl
    obtain ⟨rest, hrest, hreturns⟩ := exists_dropEndWhile_append (· == '\r') l
    cases rest with
    | nil => rwa [List.append_nil, eq_comm] at hrest
    | cons c cs =>
      have hc : c = '\r' := by simpa using hreturns c List.mem_cons_self
      have hmem : c ∈ l := by
        rw [hrest]
        exact List.mem_append_right _ List.mem_cons_self
      exact absurd ((infix_of_mem_splitAt hl).subset (hc ▸ hmem)) h
  rw [sourceLines, List.map_congr_left (g := id) hline, List.map_id]

/-- A quiet text has no comments. -/
theorem Comment.extract_of_quiet {t : Text} (h : Quiet false t) (file : Json) :
    extract file t = [] := by
  obtain ⟨l, ls, hlines⟩ := List.exists_cons_of_ne_nil (splitAt_ne_nil '\n' t)
  obtain ⟨hls, hl⟩ := h.isCalm hlines
  have hcalm : ∀ m ∈ sourceLines t, IsCalm m := by
    rw [sourceLines_of_notMem h.notMem_return, lines, hlines, List.forall_mem_cons]
    exact ⟨hl rfl, hls⟩
  obtain ⟨hphase, hblocks⟩ := Extractor.foldl_feed_calm hcalm (x := { file }) rfl
  rw [extract, Extractor.finish, if_pos (by exact hphase), scan, hblocks]

/-- **A written document has no fragments when it is read as a source.** -/
theorem ofSource_document {v : Json} {text : Text} (h : v.document = .ok text) (registry : Registry)
    (options : Options) (file : Json) :
    Fragment.ofSource registry options file (text ++ ['\n']) = .ok [] := by
  rw [Fragment.ofSource, Comment.extract_of_quiet (Json.quiet_document h)]
  rfl

end StyleGuide
