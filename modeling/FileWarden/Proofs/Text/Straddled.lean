import FileWarden.Proofs.Text.Utf8

/-!
# Bytes that end inside a character

The first bytes of a text are read as those of its characters that fit into them. If one more has
begun, what is there of it is one fault, and reads as one `U+FFFD` (`decodeLossy_take_encode`).

- **Characters** (`pieces_take_encodeChar`): some bytes of a character, and not all, are one fault.
- **Limits** (`Straddled`): a character begins before a limit and ends behind it. The characters
  that fit tell whether there is one (`straddled_iff`).
-/

namespace FileWarden
namespace Utf8

variable {n : Nat} {c : Char} {cs : List Char}

/-! ## Characters -/

/-- The first bytes of a character without the last are one fault. -/
theorem pieces_take_encodeChar (hpos : 0 < n) (hn : n < width c) :
    pieces none ((encodeChar c).take n) = [.fault n true] := by
  have hvalid : c.toNat < 0xD800 ∨ 0xDFFF < c.toNat ∧ c.toNat < 0x110000 := c.valid
  simp only [width] at hn
  simp only [encodeChar]
  split
  · rename_i h
    rw [if_pos h] at hn
    omega
  split
  · rename_i h1 h2
    rw [if_neg h1, if_pos h2] at hn
    obtain rfl : n = 1 := by omega
    rw [List.take_succ_cons, List.take_zero, pieces_begun (first_two (by omega) (by omega))]
    rfl
  split
  · rename_i h1 h2 h3
    rw [if_neg h1, if_neg h2, if_pos h3] at hn
    obtain rfl | rfl : n = 1 ∨ n = 2 := by omega
    · rw [List.take_succ_cons, List.take_zero, pieces_begun (first_three (by omega) (by omega))]
      rfl
    · rw [List.take_succ_cons, List.take_succ_cons, List.take_zero,
        pieces_two_of_three (by omega) (by omega)]
      rfl
  · rename_i h1 h2 h3
    rw [if_neg h1, if_neg h2, if_neg h3] at hn
    obtain rfl | rfl | rfl : n = 1 ∨ n = 2 ∨ n = 3 := by omega
    · rw [List.take_succ_cons, List.take_zero, pieces_begun (first_four (by omega) (by omega))]
      rfl
    · rw [List.take_succ_cons, List.take_succ_cons, List.take_zero,
        pieces_two_of_four (by omega) (by omega)]
      rfl
    · rw [List.take_succ_cons, List.take_succ_cons, List.take_succ_cons, List.take_zero,
        pieces_two_of_four (by omega) (by omega),
        pieces_more (Nat.mod_lt _ (by omega)) (by simp only [UInt8.reduceToNat]; omega)]
      rfl

/-! ## Limits -/

/-- A character of a text begins before a limit and ends behind it. -/
def Straddled (n : Nat) (cs : List Char) : Prop :=
  ∃ before c after, cs = before ++ c :: after ∧ size before < n ∧ n < size before + width c

theorem not_straddled_nil (n : Nat) : ¬ Straddled n [] := by
  rintro ⟨before, c, after, h, -⟩
  simp at h

/-- The first character fits. -/
theorem straddled_cons_of_le (h : width c ≤ n) :
    Straddled n (c :: cs) ↔ Straddled (n - width c) cs := by
  constructor
  · rintro ⟨before, d, after, hcs, hbegin, hend⟩
    cases before with
    | nil =>
      obtain ⟨rfl, -⟩ := List.cons_eq_cons.mp hcs
      rw [size_nil] at hend
      omega
    | cons b before =>
      obtain ⟨rfl, htail⟩ := List.cons_eq_cons.mp hcs
      rw [size_cons] at hbegin hend
      exact ⟨before, d, after, htail, by omega, by omega⟩
  · rintro ⟨before, d, after, rfl, hbegin, hend⟩
    refine ⟨c :: before, d, after, rfl, ?_, ?_⟩
    · rw [size_cons]
      omega
    · rw [size_cons]
      omega

/-- The first character does not fit. -/
theorem straddled_cons_of_lt (h : n < width c) : Straddled n (c :: cs) ↔ 0 < n := by
  constructor
  · rintro ⟨before, d, after, -, hbegin, -⟩
    omega
  · intro hpos
    exact ⟨[], c, cs, rfl, hpos, by rwa [size_nil, Nat.zero_add]⟩

/-- A character straddles a limit if those that fit leave room and there are more. -/
theorem straddled_iff : Straddled n cs ↔ size (keep n cs) < n ∧ n < size cs := by
  induction cs generalizing n with
  | nil => simp [not_straddled_nil, keep]
  | cons c cs ih =>
    by_cases hc : width c ≤ n
    · rw [straddled_cons_of_le hc, ih, keep, if_pos hc, size_cons, size_cons]
      omega
    · rw [straddled_cons_of_lt (Nat.not_le.mp hc), keep, if_neg hc, size_nil, size_cons]
      omega

instance : Decidable (Straddled n cs) := decidable_of_iff _ straddled_iff.symm

theorem Straddled.lt_size (h : Straddled n cs) : n < size cs := (straddled_iff.mp h).2

/-- What straddles a limit has bytes on both sides of it. -/
theorem Straddled.exists_wide (h : Straddled n cs) : ∃ c ∈ cs, 1 < width c := by
  obtain ⟨before, c, after, rfl, hbegin, hend⟩ := h
  exact ⟨c, by simp, by omega⟩

/-! ## Texts -/

theorem decodeLossy_encodeChar_append (c : Char) (bs : List UInt8) :
    decodeLossy (encodeChar c ++ bs) = c :: decodeLossy bs := by
  rw [decodeLossy, pieces_encodeChar]
  rfl

/-- The first bytes of a text are read as the characters that fit into them, and as one `U+FFFD` if
there is a part of one more. -/
theorem decodeLossy_take_encode (n : Nat) (cs : List Char) :
    decodeLossy ((encode cs).take n) =
      keep n cs ++ if Straddled n cs then ['\uFFFD'] else [] := by
  induction cs generalizing n with
  | nil => simp [not_straddled_nil, keep, decodeLossy, pieces]
  | cons c cs ih =>
    have hlength := length_encodeChar c
    by_cases hc : width c ≤ n
    · rw [encode_cons, List.take_append, List.take_of_length_le (by omega), hlength,
        decodeLossy_encodeChar_append, ih, keep, if_pos hc, List.cons_append]
      simp only [straddled_cons_of_le hc]
    · have hlt := Nat.not_le.mp hc
      rw [encode_cons, List.take_append_of_le_length (by omega), keep, if_neg hc, List.nil_append]
      simp only [straddled_cons_of_lt hlt]
      split
      · rename_i hpos
        rw [decodeLossy, pieces_take_encodeChar hpos hlt]
        rfl
      · rename_i hzero
        obtain rfl : n = 0 := by omega
        rfl

end Utf8
end FileWarden
