import StyleGuide.Files.Tree

/-!
# Text that is written can be read

The bytes of a character are one chunk, whatever follows them (`chunks_encodeChar_append`). So
decoding gives back every text that was encoded, and a text without carriage returns is read from
its file as it was written (`readText_encode`).

A chunk that is a character has the bytes of that character (`chunk_eq_char`), so decoding accepts
nothing else (`decode_eq_ok_iff`). What is read from a file differs from what is there in its line
ends only (`readText_eq_ok_iff`).
-/

namespace StyleGuide.Utf8

/-! ### Characters -/

theorem toNat_ofNat {n : Nat} (h : n < 256) : (UInt8.ofNat n).toNat = n := by
  rw [UInt8.toNat_ofNat']
  exact Nat.mod_eq_of_lt h

/-- A code point is below the surrogates, or above them and in range. -/
theorem toNat_cases (c : Char) : c.toNat < 0xD800 ∨ 0xDFFF < c.toNat ∧ c.toNat < 0x110000 := c.valid

/-- One more byte of a character. -/
theorem follow_tail {low high k : Nat} (hlow : low ≤ 0x80 + k % 64) (hhigh : 0x80 + k % 64 ≤ high)
    (bits width more : Nat) (bs : List UInt8) :
    follow low high bits width (more + 1) (UInt8.ofNat (0x80 + k % 64) :: bs) =
      follow 0x80 0xBF (bits * 64 + k % 64) (width + 1) more bs := by
  have hbyte : (UInt8.ofNat (0x80 + k % 64)).toNat = 0x80 + k % 64 := toNat_ofNat (by omega)
  have hbits : (0x80 + k % 64) % 64 = k % 64 := by omega
  rw [follow, hbyte, if_pos ⟨hlow, hhigh⟩, hbits]

/-- The bytes of a character are the chunk of that character. -/
theorem chunk_encodeChar (c : Char) (rest : List UInt8) :
    ∃ b bs, encodeChar c = b :: bs ∧ chunk b (bs ++ rest) = .char c (bs.length + 1) := by
  have hrange := toNat_cases c
  unfold encodeChar
  dsimp only
  -- One case for each number of bytes: the first byte tells it, and the bits add up again.
  split
  · next h =>
    refine ⟨_, [], rfl, ?_⟩
    simp only [chunk, toNat_ofNat (Nat.lt_trans h (by decide)), lead?, if_pos h, follow,
      Char.ofNat_toNat]
    rfl
  · split
    · next h₁ h =>
      refine ⟨_, _, rfl, ?_⟩
      have hlead : lead? (0xC0 + c.toNat / 64) = some ⟨1, 0x80, 0xBF, c.toNat / 64⟩ := by
        unfold lead?
        rw [if_neg (by omega), if_neg (by omega), if_pos (by omega), Nat.add_sub_cancel_left]
      have hbits : c.toNat / 64 * 64 + c.toNat % 64 = c.toNat := by omega
      simp only [chunk, toNat_ofNat (show 0xC0 + c.toNat / 64 < 256 by omega), hlead,
        List.cons_append]
      rw [follow_tail (by omega) (by omega), hbits, follow, Char.ofNat_toNat]
      rfl
    · split
      · next h₂ h₁ h =>
        refine ⟨_, _, rfl, ?_⟩
        have hlead : lead? (0xE0 + c.toNat / 4096) = some ⟨2,
            if 0xE0 + c.toNat / 4096 = 0xE0 then 0xA0 else 0x80,
            if 0xE0 + c.toNat / 4096 = 0xED then 0x9F else 0xBF, c.toNat / 4096⟩ := by
          unfold lead?
          rw [if_neg (by omega), if_neg (by omega), if_neg (by omega), if_pos (by omega),
            Nat.add_sub_cancel_left]
        have hbits : (c.toNat / 4096 * 64 + c.toNat / 64 % 64) * 64 + c.toNat % 64 = c.toNat := by
          omega
        simp only [chunk, toNat_ofNat (show 0xE0 + c.toNat / 4096 < 256 by omega), hlead,
          List.cons_append]
        rw [follow_tail, follow_tail (by omega) (by omega), hbits, follow, Char.ofNat_toNat]
        · rfl
        · split <;> omega
        · split <;> omega
      · next h₃ h₂ h₁ =>
        refine ⟨_, _, rfl, ?_⟩
        have hlead : lead? (0xF0 + c.toNat / 262144) = some ⟨3,
            if 0xF0 + c.toNat / 262144 = 0xF0 then 0x90 else 0x80,
            if 0xF0 + c.toNat / 262144 = 0xF4 then 0x8F else 0xBF, c.toNat / 262144⟩ := by
          unfold lead?
          rw [if_neg (by omega), if_neg (by omega), if_neg (by omega), if_neg (by omega),
            if_pos (by omega), Nat.add_sub_cancel_left]
        have hbits : ((c.toNat / 262144 * 64 + c.toNat / 4096 % 64) * 64 + c.toNat / 64 % 64) * 64 +
            c.toNat % 64 = c.toNat := by
          omega
        simp only [chunk, toNat_ofNat (show 0xF0 + c.toNat / 262144 < 256 by omega), hlead,
          List.cons_append]
        rw [follow_tail, follow_tail (by omega) (by omega),
          follow_tail (by omega) (by omega), hbits, follow, Char.ofNat_toNat]
        · rfl
        · split <;> omega
        · split <;> omega

/-! ### Texts -/

/-- The bytes of a character are one chunk, whatever follows. -/
theorem chunks_encodeChar_append (c : Char) (rest : List UInt8) :
    ∃ width, chunks (encodeChar c ++ rest) = .char c width :: chunks rest := by
  obtain ⟨b, bs, hencode, hchunk⟩ := chunk_encodeChar c rest
  refine ⟨bs.length + 1, ?_⟩
  rw [hencode, List.cons_append, chunks, hchunk]
  simp [Chunk.width]

/-- What was encoded is decoded without a fault. -/
theorem strict_chunks_encode (t : Text) (bytes : List UInt8) (offset : Nat) :
    strict bytes offset (chunks (encode t)) = .ok t := by
  induction t generalizing offset with
  | nil => rw [encode, List.flatMap_nil, chunks, strict]
  | cons c t ih =>
    obtain ⟨width, hchunks⟩ := chunks_encodeChar_append c (encode t)
    show strict bytes offset (chunks (encodeChar c ++ encode t)) = .ok (c :: t)
    rw [hchunks, strict, ih]
    rfl

/-- Decoding gives back what was encoded. -/
theorem decode_encode (t : Text) : decode (encode t) = .ok t := strict_chunks_encode t _ 0

/-! ### Only encoded texts are decoded -/

section Inverse

variable {low high bits width more w n : Nat} {c : Char} {b : UInt8} {bs : List UInt8}

theorem follow_zero_eq_char (h : follow low high bits width 0 bs = .char c w) :
    c = Char.ofNat bits ∧ w = width := by
  rw [follow] at h
  cases h
  exact ⟨rfl, rfl⟩

/-- One more byte that is accepted is in its range, and gives its last six bits. -/
theorem follow_succ_eq_char (h : follow low high bits width (more + 1) bs = .char c w) :
    ∃ b tail, bs = b :: tail ∧ low ≤ b.toNat ∧ b.toNat ≤ high ∧
      follow 0x80 0xBF (bits * 64 + b.toNat % 64) (width + 1) more tail = .char c w := by
  cases bs with
  | nil =>
    rw [follow] at h
    cases h
  | cons b tail =>
    rw [follow] at h
    split at h
    · next hrange => exact ⟨b, tail, rfl, hrange.1, hrange.2, h⟩
    · cases h

/-- A first byte is a character by itself, or starts one of two, three or four bytes. The range of
the second byte leaves out what has a shorter form, the surrogates, and all beyond the last code
point. -/
theorem lead?_cases {l : Lead} (h : lead? n = some l) :
    (n < 0x80 ∧ l = ⟨0, 0x80, 0xBF, n⟩) ∨
    (0xC2 ≤ n ∧ n < 0xE0 ∧ l = ⟨1, 0x80, 0xBF, n - 0xC0⟩) ∨
    (0xE0 ≤ n ∧ n < 0xF0 ∧ ∃ low high, l = ⟨2, low, high, n - 0xE0⟩ ∧ 0x80 ≤ low ∧ high ≤ 0xBF ∧
      (n = 0xE0 → 0xA0 ≤ low) ∧ (n = 0xED → high ≤ 0x9F)) ∨
    (0xF0 ≤ n ∧ n < 0xF5 ∧ ∃ low high, l = ⟨3, low, high, n - 0xF0⟩ ∧ 0x80 ≤ low ∧ high ≤ 0xBF ∧
      (n = 0xF0 → 0x90 ≤ low) ∧ (n = 0xF4 → high ≤ 0x8F)) := by
  grind [lead?]

theorem toNat_charOfNat (h : n < 0xD800 ∨ 0xDFFF < n ∧ n < 0x110000) :
    (Char.ofNat n).toNat = n := by
  rw [Char.ofNat, dif_pos (show n.isValidChar from h)]
  rfl

theorem ofNat_eq_of_toNat (h : n = b.toNat) : UInt8.ofNat n = b := by
  rw [h, UInt8.ofNat_toNat]

/-- The bytes that are read as a character are the bytes of that character. -/
theorem chunk_eq_char (h : chunk b bs = .char c w) :
    ∃ tail rest, bs = tail ++ rest ∧ w = tail.length + 1 ∧ encodeChar c = b :: tail := by
  unfold chunk at h
  cases hlead : lead? b.toNat with
  | none =>
    rw [hlead] at h
    cases h
  | some l =>
    rw [hlead] at h
    dsimp only at h
    -- The bounds on the second byte rule out what would be encoded in another way.
    rcases lead?_cases hlead with ⟨hb, rfl⟩ | ⟨hmin, hmax, rfl⟩ |
      ⟨hmin, hmax, low, high, rfl, hlow, hhigh, hoverlong, hsurrogate⟩ |
      ⟨hmin, hmax, low, high, rfl, hlow, hhigh, hoverlong, hbeyond⟩
    · obtain ⟨rfl, rfl⟩ := follow_zero_eq_char h
      refine ⟨[], bs, rfl, rfl, ?_⟩
      unfold encodeChar
      dsimp only
      rw [toNat_charOfNat (by omega), if_pos hb, UInt8.ofNat_toNat]
    · obtain ⟨b₁, tail, rfl, hlow₁, hhigh₁, h⟩ := follow_succ_eq_char h
      obtain ⟨rfl, rfl⟩ := follow_zero_eq_char h
      dsimp only at hlow₁ hhigh₁
      refine ⟨[b₁], tail, rfl, rfl, ?_⟩
      unfold encodeChar
      dsimp only
      rw [toNat_charOfNat (by omega), if_neg (by omega), if_pos (by omega),
        ofNat_eq_of_toNat (b := b) (by omega), ofNat_eq_of_toNat (b := b₁) (by omega)]
    · obtain ⟨b₁, _, rfl, hlow₁, hhigh₁, h⟩ := follow_succ_eq_char h
      obtain ⟨b₂, tail, rfl, hlow₂, hhigh₂, h⟩ := follow_succ_eq_char h
      obtain ⟨rfl, rfl⟩ := follow_zero_eq_char h
      dsimp only at hlow₁ hhigh₁
      refine ⟨[b₁, b₂], tail, rfl, rfl, ?_⟩
      unfold encodeChar
      dsimp only
      rw [toNat_charOfNat (by omega), if_neg (by omega), if_neg (by omega), if_pos (by omega),
        ofNat_eq_of_toNat (b := b) (by omega), ofNat_eq_of_toNat (b := b₁) (by omega),
        ofNat_eq_of_toNat (b := b₂) (by omega)]
    · obtain ⟨b₁, _, rfl, hlow₁, hhigh₁, h⟩ := follow_succ_eq_char h
      obtain ⟨b₂, _, rfl, hlow₂, hhigh₂, h⟩ := follow_succ_eq_char h
      obtain ⟨b₃, tail, rfl, hlow₃, hhigh₃, h⟩ := follow_succ_eq_char h
      obtain ⟨rfl, rfl⟩ := follow_zero_eq_char h
      dsimp only at hlow₁ hhigh₁
      refine ⟨[b₁, b₂, b₃], tail, rfl, rfl, ?_⟩
      unfold encodeChar
      dsimp only
      rw [toNat_charOfNat (by omega), if_neg (by omega), if_neg (by omega), if_neg (by omega),
        ofNat_eq_of_toNat (b := b) (by omega), ofNat_eq_of_toNat (b := b₁) (by omega),
        ofNat_eq_of_toNat (b := b₂) (by omega), ofNat_eq_of_toNat (b := b₃) (by omega)]

/-- Bytes that can be decoded are the encoding of their text. -/
theorem eq_encode_of_strict {bytes : List UInt8} {offset : Nat} {t : Text}
    (h : strict bytes offset (chunks bs) = .ok t) : bs = encode t := by
  fun_induction chunks bs generalizing offset t with
  | case1 =>
    rw [strict] at h
    cases h
    rfl
  | case2 b bs ih =>
    cases hchunk : chunk b bs with
    | bad reason w =>
      rw [hchunk, strict] at h
      cases h
    | char c w =>
      -- The next chunk starts behind the bytes of the character.
      obtain ⟨tail, rest, rfl, rfl, hchar⟩ := chunk_eq_char hchunk
      rw [hchunk, strict] at h
      have hdrop : (tail ++ rest).drop ((Chunk.char c (tail.length + 1)).width - 1) = rest :=
        List.drop_left
      rw [hchunk, hdrop] at ih
      rw [hdrop] at h
      cases hstrict : strict bytes (offset + (tail.length + 1)) (chunks rest) with
      | error fault =>
        rw [hstrict] at h
        cases h
      | ok u =>
        rw [hstrict] at h
        cases h
        show b :: tail ++ rest = encodeChar c ++ encode u
        rw [hchar, ih hstrict]

/-- Decoding accepts the bytes of texts and nothing else. -/
theorem decode_eq_ok_iff {t : Text} : decode bs = .ok t ↔ bs = encode t := by
  constructor
  · exact eq_encode_of_strict
  · rintro rfl
    exact decode_encode t

end Inverse

end StyleGuide.Utf8

namespace StyleGuide

/-! ### Files -/

theorem Text.unifyNewlines_of_notMem {t : Text} (h : '\r' ∉ t) : t.unifyNewlines = t := by
  fun_induction Text.unifyNewlines t with
  | case1 => rfl
  | case2 => simp at h
  | case3 => simp at h
  | case4 c rest _ _ ih => rw [ih fun hmem => h (List.mem_cons_of_mem c hmem)]

/-- A text that was encoded is read with its line ends unified. -/
theorem readText_encode_eq (t : Text) : readText (Utf8.encode t) = .ok t.unifyNewlines := by
  rw [readText, Utf8.decode_encode]
  rfl

/-- A text without carriage returns is read as it was written. -/
theorem readText_encode {t : Text} (h : '\r' ∉ t) : readText (Utf8.encode t) = .ok t := by
  rw [readText_encode_eq, Text.unifyNewlines_of_notMem h]

/-- Every line end of a text that is read is a newline. -/
theorem Text.notMem_unifyNewlines (t : Text) : '\r' ∉ t.unifyNewlines := by
  fun_induction Text.unifyNewlines t with
  | case1 => exact List.not_mem_nil
  | case2 rest ih => simpa using ih
  | case3 rest _ ih => simpa using ih
  | case4 c rest _ hreturn ih =>
    rw [List.mem_cons, not_or]
    exact ⟨fun hc => hreturn hc.symm, ih⟩

/-- What can be read is the bytes of a text, whose line ends may be other ones. -/
theorem readText_eq_ok_iff {bytes : List UInt8} {t : Text} :
    readText bytes = .ok t ↔ ∃ old, bytes = Utf8.encode old ∧ old.unifyNewlines = t := by
  constructor
  · intro h
    cases hdecode : Utf8.decode bytes with
    | error fault =>
      rw [readText, hdecode] at h
      cases h
    | ok old =>
      rw [readText, hdecode] at h
      cases h
      exact ⟨old, Utf8.decode_eq_ok_iff.mp hdecode, rfl⟩
  · rintro ⟨old, rfl, rfl⟩
    exact readText_encode_eq old

end StyleGuide
