import FileWarden.Proofs.Text.Lossy
import FileWarden.Proofs.Text.Utf8

/-!
# Bytes without faults

Bytes are read as a text exactly if they are the bytes of that text (`decode_eq_ok_iff`).

- **Bytes that follow** (`following`): the bytes of a character behind its first ones carry six bits
  each.
- **What was begun** (`Begun.Begins`): the bytes that were read begin each character that has the
  bits so far in front. One byte more begins it too (`Begun.Begins.more`), or ends it
  (`Begun.Begins.last`).
- **All bytes** (`encode_of_pieces`): bytes whose pieces are characters are the bytes of these.
-/

namespace FileWarden
namespace Utf8

variable {o : Option Begun} {s : Begun} {b : UInt8} {bs held : List UInt8} {cs : List Char}

/-! ## Bytes that follow -/

/-- The last bytes of a character, by its number: six bits each, the highest first. -/
def following : Nat → Nat → List UInt8
  | 0, _ => []
  | k + 1, n => (0x80 + n / 64 ^ k % 64).toUInt8 :: following k n

theorem toUInt8_eq {n : Nat} (h : n = b.toNat) : n.toUInt8 = b := by
  rw [h]
  exact UInt8.ofNat_toNat

/-- The bytes that were read begin each character of their width that has the bits so far in
front. -/
structure Begun.Begins (s : Begun) (held : List UInt8) : Prop where
  low : 0x80 ≤ s.low.toNat
  high : s.high.toNat ≤ 0xBF
  encodeChar : ∀ c : Char, width c = s.read + s.after + 1 →
    c.toNat / 64 ^ (s.after + 1) = s.bits → encodeChar c = held ++ following (s.after + 1) c.toNat

namespace Begun

theorem begins_two (h : 0xC2 ≤ b.toNat) (h' : b.toNat < 0xE0) :
    Begins ⟨0, 0x80, 0xBF, b.toNat - 0xC0, 1⟩ [b] where
  low := Nat.le_refl _
  high := Nat.le_refl _
  encodeChar c hwidth hbits := by
    simp only [Nat.zero_add, Nat.pow_one] at hbits
    have hc : ¬ c.toNat < 0x80 ∧ c.toNat < 0x800 := by grind [Utf8.width]
    have hfirst : (0xC0 + c.toNat / 64).toUInt8 = b := toUInt8_eq (by omega)
    simp only [Utf8.encodeChar, if_neg hc.1, if_pos hc.2, hfirst, following, Nat.pow_zero,
      Nat.div_one, List.singleton_append]

theorem begins_three {low high : UInt8} (hlow : 0x80 ≤ low.toNat) (hhigh : high.toNat ≤ 0xBF)
    (h : 0xE0 ≤ b.toNat) (h' : b.toNat < 0xF0) :
    Begins ⟨1, low, high, b.toNat - 0xE0, 1⟩ [b] where
  low := hlow
  high := hhigh
  encodeChar c hwidth hbits := by
    simp only [Nat.reduceAdd, Nat.reducePow] at hbits
    have hc : ¬ c.toNat < 0x80 ∧ ¬ c.toNat < 0x800 ∧ c.toNat < 0x10000 := by grind [Utf8.width]
    have hfirst : (0xE0 + c.toNat / 4096).toUInt8 = b := toUInt8_eq (by omega)
    simp only [Utf8.encodeChar, if_neg hc.1, if_neg hc.2.1, if_pos hc.2.2, hfirst, following,
      Nat.pow_one, Nat.pow_zero, Nat.div_one, List.singleton_append]

theorem begins_four {low high : UInt8} (hlow : 0x80 ≤ low.toNat) (hhigh : high.toNat ≤ 0xBF)
    (h : 0xF0 ≤ b.toNat) (h' : b.toNat < 0xF5) :
    Begins ⟨2, low, high, b.toNat - 0xF0, 1⟩ [b] where
  low := hlow
  high := hhigh
  encodeChar c hwidth hbits := by
    simp only [Nat.reduceAdd, Nat.reducePow] at hbits
    have hc : ¬ c.toNat < 0x80 ∧ ¬ c.toNat < 0x800 ∧ ¬ c.toNat < 0x10000 := by grind [Utf8.width]
    have hfirst : (0xF0 + c.toNat / 262144).toUInt8 = b := toUInt8_eq (by omega)
    simp only [Utf8.encodeChar, if_neg hc.1, if_neg hc.2.1, if_neg hc.2.2, hfirst, following,
      Nat.pow_one, Nat.pow_zero, Nat.div_one, Nat.reducePow, List.singleton_append]

/-- A byte in range carries the next six bits. -/
theorem Begins.byte (h : s.Begins held) (hb : s.low ≤ b ∧ b ≤ s.high) {n : Nat}
    (hn : n = s.bits * 64 + (b.toNat - 0x80)) :
    n / 64 = s.bits ∧ (0x80 + n % 64).toUInt8 = b := by
  have hlow := UInt8.le_iff_toNat_le.mp hb.1
  have hhigh := UInt8.le_iff_toNat_le.mp hb.2
  have := h.low
  have := h.high
  exact ⟨by omega, toUInt8_eq (by omega)⟩

/-- One byte more, in range. -/
theorem Begins.more (h : s.Begins held) {k : Nat} (hk : s.after = k + 1)
    (hb : s.low ≤ b ∧ b ≤ s.high) :
    Begins ⟨k, 0x80, 0xBF, s.bits * 64 + (b.toNat - 0x80), s.read + 1⟩ (held ++ [b]) where
  low := Nat.le_refl _
  high := Nat.le_refl _
  encodeChar c hwidth hbits := by
    obtain ⟨hfront, hbyte⟩ := h.byte hb hbits
    rw [Nat.div_div_eq_div_mul, ← Nat.pow_succ] at hfront
    have hchar := h.encodeChar c (by simp only at hwidth; omega) (by rw [hk]; exact hfront)
    rw [hchar, hk, following, hbyte, List.append_assoc, List.singleton_append]

/-- The last byte, in range. -/
theorem Begins.last (h : s.Begins held) (hs : s.Sound) (hk : s.after = 0)
    (hb : s.low ≤ b ∧ b ≤ s.high) :
    Utf8.encodeChar (Char.ofNat (s.bits * 64 + (b.toNat - 0x80))) = held ++ [b] := by
  have hwidth := hs.last hk hb
  generalize hn : s.bits * 64 + (b.toNat - 0x80) = n at hwidth ⊢
  have hread := hs.read_pos
  -- The number is that of a character: any other would be read as NUL, which takes one byte.
  have hchar : (Char.ofNat n).toNat = n := by
    by_cases hvalid : n < 0xD800 ∨ 0xDFFF < n ∧ n < 0x110000
    · exact toNat_ofNat hvalid
    · have hnul : Char.ofNat n = '\x00' := by
        rw [Char.ofNat, dif_neg hvalid]
        rfl
      rw [hnul] at hwidth
      have hone : Utf8.width '\x00' = 1 := rfl
      omega
  obtain ⟨hfront, hbyte⟩ := h.byte hb hn.symm
  have hencoded := h.encodeChar (Char.ofNat n) (by rw [hk]; exact hwidth)
    (by rw [hk, hchar]; exact hfront)
  rw [hencoded, hk, following, following, hchar, Nat.pow_zero, Nat.div_one, hbyte]

end Begun

/-! ## Steps -/

/-- Bytes that were read before the next piece. -/
def Holds (o : Option Begun) (held : List UInt8) : Prop :=
  match o with
  | none => held = []
  | some s => s.Sound ∧ s.Begins held

theorem holds_none : Holds none [] := rfl

/-- What a byte does behind bytes that were read: it ends a character, goes on with one, or shows a
fault. -/
inductive Stepped (held : List UInt8) : Option Begun × List Piece → Prop
  | ended {c : Char} (h : encodeChar c = held) : Stepped held (none, [.char c])
  | begun {s : Begun} (h : Holds (some s) held) : Stepped held (some s, [])
  | fault {r : Option Begun × List Piece} {n : Nat} {cut : Bool} (h : .fault n cut ∈ r.2) :
    Stepped held r

theorem stepped_first (b : UInt8) : Stepped [b] (first b) := by
  have hsound := (accounts_first b).begun
  revert hsound
  simp only [first, UInt8.lt_iff_toNat_lt, UInt8.reduceToNat]
  split
  · rename_i hone
    refine fun _ => .ended ?_
    have hnat : (Char.ofNat b.toNat).toNat = b.toNat := toNat_ofNat (by omega)
    rw [encodeChar, hnat, if_pos hone, toUInt8_eq rfl]
  split
  · exact fun _ => .fault List.mem_cons_self
  split
  · exact fun hsound => .begun ⟨hsound _ rfl, Begun.begins_two (by omega) (by omega)⟩
  split
  · refine fun hsound => .begun ⟨hsound _ rfl, Begun.begins_three ?_ ?_ (by omega) (by omega)⟩
    · split <;> decide
    · split <;> decide
  split
  · refine fun hsound => .begun ⟨hsound _ rfl, Begun.begins_four ?_ ?_ (by omega) (by omega)⟩
    · split <;> decide
    · split <;> decide
  · exact fun _ => .fault List.mem_cons_self

theorem stepped_step (h : Holds o held) (b : UInt8) : Stepped (held ++ [b]) (step o b) := by
  cases o with
  | none =>
    obtain rfl : held = [] := h
    exact stepped_first b
  | some s =>
    obtain ⟨hsound, hbegins⟩ := h
    simp only [step]
    split
    · rename_i hb
      split
      · rename_i hk
        exact .ended (hbegins.last hsound hk hb)
      · rename_i k hk
        exact .begun ⟨hsound.more hk hb, hbegins.more hk hb⟩
    · exact .fault List.mem_cons_self

/-! ## All bytes -/

theorem fault_not_mem_chars {n : Nat} {cut : Bool} (cs : List Char) :
    .fault n cut ∉ cs.map Piece.char := by
  simp

/-- Bytes whose pieces are characters are the bytes of these. -/
theorem encode_of_pieces (h : Holds o held) (hchars : pieces o bs = cs.map .char) :
    encode cs = held ++ bs := by
  induction bs generalizing o held cs with
  | nil =>
    cases o with
    | none =>
      obtain rfl : held = [] := h
      obtain rfl : cs = [] := by simpa [pieces] using hchars.symm
      rfl
    | some s =>
      have hfault : .fault s.read true ∈ cs.map Piece.char := hchars ▸ List.mem_cons_self
      exact absurd hfault (fault_not_mem_chars cs)
  | cons b bs ih =>
    have hstep := stepped_step h b
    rw [pieces] at hchars
    generalize step o b = r at hstep hchars
    cases hstep with
    | ended hc =>
      cases cs with
      | nil => simp at hchars
      | cons d ds =>
        obtain ⟨hd, hds⟩ := List.cons_eq_cons.mp hchars
        obtain rfl := Piece.char.inj hd
        rw [encode_cons, hc, ih holds_none hds, List.append_assoc]
        rfl
    | begun hs => rw [ih hs hchars, List.append_assoc, List.singleton_append]
    | fault hmem =>
      exact absurd (hchars ▸ List.mem_append_left _ hmem) (fault_not_mem_chars cs)

/-- Bytes are read as a text exactly if they are its bytes. -/
theorem decode_eq_ok_iff : decode bs = .ok cs ↔ bs = encode cs := by
  constructor
  · intro h
    exact (encode_of_pieces holds_none (pieces_of_collect h)).symm
  · rintro rfl
    exact decode_encode cs

end Utf8
end FileWarden
