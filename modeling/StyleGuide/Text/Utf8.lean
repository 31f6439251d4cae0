import StyleGuide.Text.Basic

/-!
# UTF-8

Bytes are read chunk by chunk: a chunk is a character or a maximal piece that cannot be part
of one. Strict decoding stops at the first such piece and says where and why; lossy decoding
puts one replacement character in the place of each.
-/

namespace StyleGuide.Utf8

inductive Reason where
  | start
  | continuation
  | truncated
  deriving DecidableEq, Repr

def Reason.message : Reason → String
  | start => "invalid start byte"
  | continuation => "invalid continuation byte"
  | truncated => "unexpected end of data"

/-- What the bytes at one place are: a character, or bytes that belong to none. -/
inductive Chunk where
  | char (c : Char) (width : Nat)
  | bad (reason : Reason) (width : Nat)
  deriving DecidableEq, Repr

def Chunk.width : Chunk → Nat
  | char _ w | bad _ w => w

/-- What a first byte announces: how many bytes follow, the range of the next one, and the
bits that the first byte has itself. -/
structure Lead where
  more : Nat
  low : Nat
  high : Nat
  bits : Nat
  deriving DecidableEq, Repr

/-- What a first byte announces. The ranges leave out overlong forms, surrogates and all
beyond the last code point. -/
def lead? (b : Nat) : Option Lead :=
  if b < 0x80 then some ⟨0, 0x80, 0xBF, b⟩
  else if b < 0xC2 then none
  else if b < 0xE0 then some ⟨1, 0x80, 0xBF, b - 0xC0⟩
  else if b < 0xF0 then
    some ⟨2, if b = 0xE0 then 0xA0 else 0x80, if b = 0xED then 0x9F else 0xBF, b - 0xE0⟩
  else if b < 0xF5 then
    some ⟨3, if b = 0xF0 then 0x90 else 0x80, if b = 0xF4 then 0x8F else 0xBF, b - 0xF0⟩
  else none

/-- The bytes after the first one. `bits` and `width` are those of the bytes before. -/
def follow (low high bits width : Nat) : (more : Nat) → List UInt8 → Chunk
  | 0, _ => .char (Char.ofNat bits) width
  | _ + 1, [] => .bad .truncated width
  | more + 1, b :: bs =>
    if low ≤ b.toNat ∧ b.toNat ≤ high then
      follow 0x80 0xBF (bits * 64 + b.toNat % 64) (width + 1) more bs
    else .bad .continuation width

def chunk (b : UInt8) (bs : List UInt8) : Chunk :=
  match lead? b.toNat with
  | none => .bad .start 1
  | some l => follow l.low l.high l.bits 1 l.more bs

def chunks : List UInt8 → List Chunk
  | [] => []
  | b :: bs => chunk b bs :: chunks (bs.drop ((chunk b bs).width - 1))
termination_by bytes => bytes.length
decreasing_by simp only [List.length_drop, List.length_cons]; omega

/-- Where strict decoding stops: the bytes from `first` to `last`, the first of which is
`byte`. -/
structure Fault where
  byte : UInt8
  first : Nat
  last : Nat
  reason : Reason
  deriving DecidableEq, Repr

def Fault.message (f : Fault) : String :=
  let shown := String.ofList (hexByte f.byte.toNat)
  if f.first = f.last then
    s!"'utf-8' codec can't decode byte 0x{shown} in position {f.first}: {f.reason.message}"
  else
    s!"'utf-8' codec can't decode bytes in position {f.first}-{f.last}: {f.reason.message}"
where
  /-- Two hexadecimal digits. -/
  hexByte (n : Nat) : Text := [Nat.digitChar (n / 16), Nat.digitChar (n % 16)]

/-- The characters of chunks that start at an offset, unless one is bad. -/
def strict (bytes : List UInt8) (offset : Nat) : List Chunk → Except Fault Text
  | [] => .ok []
  | .bad reason width :: _ =>
    .error ⟨bytes.getD offset 0, offset, offset + width - 1, reason⟩
  | .char c width :: rest => (strict bytes (offset + width) rest).map (c :: ·)

def decode (bytes : List UInt8) : Except Fault Text := strict bytes 0 (chunks bytes)

/-- The text of some bytes, with a replacement character for every bad chunk. -/
def decodeLossy (bytes : List UInt8) : Text :=
  (chunks bytes).map fun
    | .char c _ => c
    | .bad _ _ => '�'

def encodeChar (c : Char) : List UInt8 :=
  let n := c.toNat
  let tail (k : Nat) : UInt8 := .ofNat (0x80 + k % 64)
  if n < 0x80 then [.ofNat n]
  else if n < 0x800 then [.ofNat (0xC0 + n / 64), tail n]
  else if n < 0x10000 then [.ofNat (0xE0 + n / 4096), tail (n / 64), tail n]
  else [.ofNat (0xF0 + n / 262144), tail (n / 4096), tail (n / 64), tail n]

def encode (t : Text) : List UInt8 := t.flatMap encodeChar

end StyleGuide.Utf8

namespace StyleGuide.Text

/-- Every line end becomes a newline: a carriage return counts as one, with the newline after
it if there is one. -/
def unifyNewlines : Text → Text
  | [] => []
  | '\r' :: '\n' :: rest => '\n' :: unifyNewlines rest
  | '\r' :: rest => '\n' :: unifyNewlines rest
  | c :: rest => c :: unifyNewlines rest

end StyleGuide.Text
