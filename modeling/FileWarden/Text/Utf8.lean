/-!
# UTF-8

Characters as bytes, and bytes as characters.

* `encode` writes characters and `size` counts the bytes it writes.
* `pieces` cuts any bytes into characters and faults. A fault is the longest run of bytes that
  begins a character and fails to continue it, or one byte that begins none.
* `decodeLossy` puts `U+FFFD` for each fault; `decode` refuses the first one.
* `keep` is the longest beginning of a text that fits into so many bytes.
-/

namespace FileWarden
namespace Utf8

/-! ## Writing -/

/-- The bytes of one character: the first tells how many follow, and each that follows carries six
bits. -/
def encodeChar (c : Char) : List UInt8 :=
  let n := c.toNat
  if n < 0x80 then [n.toUInt8]
  else if n < 0x800 then [(0xC0 + n / 64).toUInt8, (0x80 + n % 64).toUInt8]
  else if n < 0x10000 then
    [(0xE0 + n / 4096).toUInt8, (0x80 + n / 64 % 64).toUInt8, (0x80 + n % 64).toUInt8]
  else
    [(0xF0 + n / 262144).toUInt8, (0x80 + n / 4096 % 64).toUInt8, (0x80 + n / 64 % 64).toUInt8,
      (0x80 + n % 64).toUInt8]

/-- The bytes of a text. -/
def encode (cs : List Char) : List UInt8 := cs.flatMap encodeChar

@[simp] theorem encode_nil : encode [] = [] := rfl

@[simp] theorem encode_cons (c : Char) (cs : List Char) :
    encode (c :: cs) = encodeChar c ++ encode cs := by simp [encode]

@[simp] theorem encode_append (cs ds : List Char) : encode (cs ++ ds) = encode cs ++ encode ds := by
  simp [encode]

/-- How many bytes a character takes. -/
def width (c : Char) : Nat :=
  if c.toNat < 0x80 then 1 else if c.toNat < 0x800 then 2 else if c.toNat < 0x10000 then 3 else 4

/-- How many bytes a text takes. -/
def size (cs : List Char) : Nat := cs.foldr (fun c n => width c + n) 0

@[simp] theorem size_nil : size [] = 0 := rfl

@[simp] theorem size_cons (c : Char) (cs : List Char) : size (c :: cs) = width c + size cs := rfl

@[simp] theorem size_append (cs ds : List Char) : size (cs ++ ds) = size cs + size ds := by
  induction cs with
  | nil => simp
  | cons c cs ih => rw [List.cons_append, size_cons, size_cons, ih, Nat.add_assoc]

theorem width_pos (c : Char) : 0 < width c := by grind [width]

theorem length_encodeChar (c : Char) : (encodeChar c).length = width c := by
  grind [encodeChar, width]

theorem length_encode (cs : List Char) : (encode cs).length = size cs := by
  induction cs with
  | nil => rfl
  | cons c cs ih => simp [length_encodeChar, ih]

/-! ## Reading -/

/-- A character whose first bytes were read: how many bytes are still to come after the next one,
the range of the next one, the bits so far and the number of bytes read. -/
structure Begun where
  after : Nat
  low : UInt8
  high : UInt8
  bits : Nat
  read : Nat
  deriving DecidableEq, Repr

/-- What a run of bytes is: a character, or a fault of some bytes. A fault is cut short if the text
ends where the character would go on. -/
inductive Piece where
  | char (c : Char)
  | fault (bytes : Nat) (cutShort : Bool)
  deriving DecidableEq, Repr

/-- What a byte in first place is: a whole character, the start of one, or neither. The range of the
second byte leaves out overlong forms, surrogates and code points past `U+10FFFF`. -/
def first (b : UInt8) : Option Begun × List Piece :=
  if b < 0x80 then (none, [.char (Char.ofNat b.toNat)])
  else if b < 0xC2 then (none, [.fault 1 false])
  else if b < 0xE0 then (some ⟨0, 0x80, 0xBF, b.toNat - 0xC0, 1⟩, [])
  else if b < 0xF0 then
    (some ⟨1, if b = 0xE0 then 0xA0 else 0x80, if b = 0xED then 0x9F else 0xBF, b.toNat - 0xE0, 1⟩,
      [])
  else if b < 0xF5 then
    (some ⟨2, if b = 0xF0 then 0x90 else 0x80, if b = 0xF4 then 0x8F else 0xBF, b.toNat - 0xF0, 1⟩,
      [])
  else (none, [.fault 1 false])

/-- One byte more. A byte outside the range ends the character with a fault, and is read again in
first place. -/
def step : Option Begun → UInt8 → Option Begun × List Piece
  | none, b => first b
  | some s, b =>
    if s.low ≤ b ∧ b ≤ s.high then
      let bits := s.bits * 64 + (b.toNat - 0x80)
      match s.after with
      | 0 => (none, [.char (Char.ofNat bits)])
      | k + 1 => (some ⟨k, 0x80, 0xBF, bits, s.read + 1⟩, [])
    else ((first b).1, .fault s.read false :: (first b).2)

/-- The pieces of the bytes that follow what was begun. -/
def pieces : Option Begun → List UInt8 → List Piece
  | none, [] => []
  | some s, [] => [.fault s.read true]
  | s, b :: bs => (step s b).2 ++ pieces (step s b).1 bs

/-- The character a piece is read as. -/
def Piece.lossy : Piece → Char
  | .char c => c
  | .fault _ _ => '\uFFFD'

/-- The text of any bytes, with `U+FFFD` for each fault. -/
def decodeLossy (bs : List UInt8) : List Char := (pieces none bs).map Piece.lossy

/-- Where bytes stop being UTF-8: the offset of the first fault, its bytes, and whether the text
ends inside it. -/
structure Fault where
  offset : Nat
  bytes : Nat
  cutShort : Bool
  deriving DecidableEq, Repr

/-- The characters of pieces that hold no fault, else the first fault; `offset` bytes come
before. -/
def collect (offset : Nat) : List Piece → Except Fault (List Char)
  | [] => .ok []
  | .char c :: ps => (collect (offset + width c) ps).map (c :: ·)
  | .fault n cut :: _ => .error ⟨offset, n, cut⟩

/-- The text of bytes that are UTF-8. -/
def decode (bs : List UInt8) : Except Fault (List Char) := collect 0 (pieces none bs)

/-- Names the offset of a fault, and its bytes unless the text ends inside it. -/
def Fault.message (f : Fault) : String :=
  if f.cutShort then "incomplete utf-8 byte sequence from index " ++ toString f.offset
  else "invalid utf-8 sequence of " ++ toString f.bytes ++ " bytes from index " ++ toString f.offset

/-! ## Cutting -/

/-- The longest beginning of a text that takes at most `n` bytes. -/
def keep : Nat → List Char → List Char
  | _, [] => []
  | n, c :: cs => if width c ≤ n then c :: keep (n - width c) cs else []

theorem size_keep_le (n : Nat) (cs : List Char) : size (keep n cs) ≤ n := by
  induction cs generalizing n with
  | nil => simp [keep]
  | cons c cs ih =>
    simp only [keep]
    split
    · have := ih (n - width c); simp only [size_cons]; omega
    · simp

theorem keep_of_size_le {n : Nat} {cs : List Char} (h : size cs ≤ n) : keep n cs = cs := by
  induction cs generalizing n with
  | nil => rfl
  | cons c cs ih =>
    simp only [size_cons] at h
    simp only [keep, if_pos (show width c ≤ n by omega), ih (show size cs ≤ n - width c by omega)]

end Utf8
end FileWarden
