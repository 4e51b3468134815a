import FileWarden.Proofs.Text.Blank
import FileWarden.Text.Utf8

/-!
# Reading back UTF-8

The bytes of a text are read as that text: `pieces_encode` says that they hold no fault, and
`decode_encode` that the reader that refuses faults takes them. A character takes one to four bytes;
`pieces_encodeChar` has a case for each. A newline and a NUL take one byte, which occurs only where
the text has one (`ascii_not_mem_encode`).
-/

namespace FileWarden
namespace Utf8

theorem toNat_toUInt8 {n : Nat} (h : n < 256) : n.toUInt8.toNat = n := Nat.mod_eq_of_lt h

/-! ## Characters of one byte -/

/-- The byte of a character of one byte stands for this character and for nothing else. -/
theorem ascii_not_mem_encodeChar {c d : Char} (hd : d.toNat < 0x80) (h : c ≠ d) :
    d.toNat.toUInt8 ∉ encodeChar c := by
  have hvalid : c.toNat < 0xD800 ∨ 0xDFFF < c.toNat ∧ c.toNat < 0x110000 := c.valid
  have hbyte : d.toNat.toUInt8.toNat = d.toNat := toNat_toUInt8 (by omega)
  have hne {n : Nat} (hn : n < 0x100) (hdn : d.toNat ≠ n) : d.toNat.toUInt8 ≠ n.toUInt8 := by
    rw [ne_eq, ← UInt8.toNat_inj, hbyte, toNat_toUInt8 hn]
    exact hdn
  have hfollows (n : Nat) : d.toNat.toUInt8 ≠ (0x80 + n % 64).toUInt8 := hne (by omega) (by omega)
  simp only [encodeChar]
  split
  · rw [List.mem_singleton]
    exact hne (by omega) fun hn => h (Char.toNat_inj.mp hn.symm)
  split
  · have hfirst := hne (n := 0xC0 + c.toNat / 64) (by omega) (by omega)
    simp only [List.mem_cons, List.not_mem_nil, hfirst, hfollows, or_self, not_false_eq_true]
  split
  · have hfirst := hne (n := 0xE0 + c.toNat / 4096) (by omega) (by omega)
    simp only [List.mem_cons, List.not_mem_nil, hfirst, hfollows, or_self, not_false_eq_true]
  · have hfirst := hne (n := 0xF0 + c.toNat / 262144) (by omega) (by omega)
    simp only [List.mem_cons, List.not_mem_nil, hfirst, hfollows, or_self, not_false_eq_true]

theorem ascii_not_mem_encode {cs : List Char} {d : Char} (hd : d.toNat < 0x80) (h : d ∉ cs) :
    d.toNat.toUInt8 ∉ encode cs := by
  rw [encode, List.mem_flatMap]
  rintro ⟨c, hc, hmem⟩
  exact ascii_not_mem_encodeChar hd (fun hcd => h (hcd ▸ hc)) hmem

theorem newline_not_mem_encode {cs : List Char} (h : '\n' ∉ cs) : 10 ∉ encode cs :=
  ascii_not_mem_encode (by decide) h

theorem nul_not_mem_encode {cs : List Char} (h : '\x00' ∉ cs) : 0 ∉ encode cs :=
  ascii_not_mem_encode (by decide) h

/-- The bytes before the first NUL are those of the text before its first NUL. -/
theorem takeWhile_encode (cs : List Char) :
    (encode cs).takeWhile (· ≠ 0) = encode (cs.takeWhile (· ≠ '\x00')) := by
  induction cs with
  | nil => rfl
  | cons c cs ih =>
    rw [encode_cons, List.takeWhile_cons]
    split
    · rename_i hc
      have hnul : 0 ∉ encodeChar c := ascii_not_mem_encodeChar (d := '\x00') (by decide)
        (of_decide_eq_true hc)
      rw [List.takeWhile_append_of_pos (Text.forall_ne_of_not_mem hnul), ih, encode_cons]
    · rename_i hc
      obtain rfl : c = '\x00' := by simpa using hc
      rfl

/-! ## First bytes -/

theorem first_one {n : Nat} (h : n < 0x80) : first n.toUInt8 = (none, [.char (Char.ofNat n)]) := by
  have hn : n.toUInt8.toNat = n := toNat_toUInt8 (by omega)
  rw [first, if_pos (by rw [UInt8.lt_iff_toNat_lt, hn]; exact h), hn]

theorem first_two {n : Nat} (h : 0xC2 ≤ n) (h' : n < 0xE0) :
    first n.toUInt8 = (some ⟨0, 0x80, 0xBF, n - 0xC0, 1⟩, []) := by
  have hn : n.toUInt8.toNat = n := toNat_toUInt8 (by omega)
  have hge : ¬ n.toUInt8 < 0x80 ∧ ¬ n.toUInt8 < 0xC2 := by
    simp only [UInt8.lt_iff_toNat_lt, hn, UInt8.reduceToNat]
    omega
  rw [first, if_neg hge.1, if_neg hge.2, if_pos (by rw [UInt8.lt_iff_toNat_lt, hn]; exact h'), hn]

theorem first_three {n : Nat} (h : 0xE0 ≤ n) (h' : n < 0xF0) :
    first n.toUInt8 = (some ⟨1, if n = 0xE0 then 0xA0 else 0x80,
      if n = 0xED then 0x9F else 0xBF, n - 0xE0, 1⟩, []) := by
  have hn : n.toUInt8.toNat = n := toNat_toUInt8 (by omega)
  have hge : ¬ n.toUInt8 < 0x80 ∧ ¬ n.toUInt8 < 0xC2 ∧ ¬ n.toUInt8 < 0xE0 := by
    simp only [UInt8.lt_iff_toNat_lt, hn, UInt8.reduceToNat]
    omega
  rw [first, if_neg hge.1, if_neg hge.2.1, if_neg hge.2.2,
    if_pos (by rw [UInt8.lt_iff_toNat_lt, hn]; exact h')]
  simp only [← UInt8.toNat_inj, hn, UInt8.reduceToNat]

theorem first_four {n : Nat} (h : 0xF0 ≤ n) (h' : n < 0xF5) :
    first n.toUInt8 = (some ⟨2, if n = 0xF0 then 0x90 else 0x80,
      if n = 0xF4 then 0x8F else 0xBF, n - 0xF0, 1⟩, []) := by
  have hn : n.toUInt8.toNat = n := toNat_toUInt8 (by omega)
  have hge : ¬ n.toUInt8 < 0x80 ∧ ¬ n.toUInt8 < 0xC2 ∧ ¬ n.toUInt8 < 0xE0 ∧
      ¬ n.toUInt8 < 0xF0 := by
    simp only [UInt8.lt_iff_toNat_lt, hn, UInt8.reduceToNat]
    omega
  rw [first, if_neg hge.1, if_neg hge.2.1, if_neg hge.2.2.1, if_neg hge.2.2.2,
    if_pos (by rw [UInt8.lt_iff_toNat_lt, hn]; exact h')]
  simp only [← UInt8.toNat_inj, hn, UInt8.reduceToNat]

/-! ## Bytes that follow -/

section

variable {low high : UInt8} {bits read m k : Nat}

theorem toNat_following (hm : m < 0x40) (h : low.toNat ≤ 0x80 + m ∧ 0x80 + m ≤ high.toNat) :
    (low ≤ (0x80 + m).toUInt8 ∧ (0x80 + m).toUInt8 ≤ high) ∧
      (0x80 + m).toUInt8.toNat - 0x80 = m := by
  have hb : (0x80 + m).toUInt8.toNat = 0x80 + m := toNat_toUInt8 (by omega)
  rw [UInt8.le_iff_toNat_le, UInt8.le_iff_toNat_le, hb]
  exact ⟨h, Nat.add_sub_cancel_left ..⟩

theorem pieces_last (hm : m < 0x40) (h : low.toNat ≤ 0x80 + m ∧ 0x80 + m ≤ high.toNat)
    (bs : List UInt8) :
    pieces (some ⟨0, low, high, bits, read⟩) ((0x80 + m).toUInt8 :: bs) =
      .char (Char.ofNat (bits * 64 + m)) :: pieces none bs := by
  obtain ⟨hin, hbits⟩ := toNat_following hm h
  rw [pieces, step, if_pos hin, hbits]
  rfl

theorem pieces_more (hm : m < 0x40) (h : low.toNat ≤ 0x80 + m ∧ 0x80 + m ≤ high.toNat)
    (bs : List UInt8) :
    pieces (some ⟨k + 1, low, high, bits, read⟩) ((0x80 + m).toUInt8 :: bs) =
      pieces (some ⟨k, 0x80, 0xBF, bits * 64 + m, read + 1⟩) bs := by
  obtain ⟨hin, hbits⟩ := toNat_following hm h
  rw [pieces, step, if_pos hin, hbits]
  rfl

end

/-! ## Beginnings of characters -/

theorem pieces_begun {b : UInt8} {s : Begun} (h : first b = (some s, [])) (bs : List UInt8) :
    pieces none (b :: bs) = pieces (some s) bs := by
  rw [pieces, step, h, List.nil_append]

/-- Two bytes of three. The second one leaves out overlong forms and surrogates. -/
theorem pieces_two_of_three {n : Nat} (h : 0x800 ≤ n)
    (hvalid : n < 0xD800 ∨ 0xDFFF < n ∧ n < 0x10000) (bs : List UInt8) :
    pieces none ((0xE0 + n / 4096).toUInt8 :: (0x80 + n / 64 % 64).toUInt8 :: bs) =
      pieces (some ⟨0, 0x80, 0xBF, n / 64, 2⟩) bs := by
  have hbits : (0xE0 + n / 4096 - 0xE0) * 64 + n / 64 % 64 = n / 64 := by omega
  rw [pieces_begun (first_three (by omega) (by omega)), pieces_more (Nat.mod_lt _ (by omega)) (by
    constructor <;> split <;> simp only [UInt8.reduceToNat] <;> omega), hbits]

/-- Two bytes of four. The second one leaves out overlong forms and what lies past `U+10FFFF`. -/
theorem pieces_two_of_four {n : Nat} (h : 0x10000 ≤ n) (hvalid : n < 0x110000)
    (bs : List UInt8) :
    pieces none ((0xF0 + n / 262144).toUInt8 :: (0x80 + n / 4096 % 64).toUInt8 :: bs) =
      pieces (some ⟨1, 0x80, 0xBF, n / 4096, 2⟩) bs := by
  have hbits : (0xF0 + n / 262144 - 0xF0) * 64 + n / 4096 % 64 = n / 4096 := by omega
  rw [pieces_begun (first_four (by omega) (by omega)), pieces_more (Nat.mod_lt _ (by omega)) (by
    constructor <;> split <;> simp only [UInt8.reduceToNat] <;> omega), hbits]

/-! ## Whole texts -/

/-- The bytes of a character are read as that character. -/
theorem pieces_encodeChar (c : Char) (bs : List UInt8) :
    pieces none (encodeChar c ++ bs) = .char c :: pieces none bs := by
  have hvalid : c.toNat < 0xD800 ∨ 0xDFFF < c.toNat ∧ c.toNat < 0x110000 := c.valid
  have hchar {n : Nat} (h : n = c.toNat) : Char.ofNat n = c := by rw [h, Char.ofNat_toNat]
  simp only [encodeChar]
  split
  · rename_i h
    rw [List.singleton_append, pieces, step, first_one h, hchar rfl]
    rfl
  split
  · rename_i h1 h2
    rw [List.cons_append, List.singleton_append, pieces_begun (first_two (by omega) (by omega)),
      pieces_last (Nat.mod_lt _ (by omega)) (by simp only [UInt8.reduceToNat]; omega),
      hchar (by omega)]
  split
  · rename_i h1 h2 h3
    rw [List.cons_append, List.cons_append, List.singleton_append,
      pieces_two_of_three (by omega) (by omega),
      pieces_last (Nat.mod_lt _ (by omega)) (by simp only [UInt8.reduceToNat]; omega),
      hchar (by omega)]
  · rename_i h1 h2 h3
    rw [List.cons_append, List.cons_append, List.cons_append, List.singleton_append,
      pieces_two_of_four (by omega) (by omega),
      pieces_more (Nat.mod_lt _ (by omega)) (by simp only [UInt8.reduceToNat]; omega),
      pieces_last (Nat.mod_lt _ (by omega)) (by simp only [UInt8.reduceToNat]; omega),
      hchar (by omega)]

/-- The bytes of a text hold its characters and no fault. -/
theorem pieces_encode (cs : List Char) : pieces none (encode cs) = cs.map .char := by
  induction cs with
  | nil => rfl
  | cons c cs ih => rw [encode_cons, pieces_encodeChar, ih, List.map_cons]

theorem decodeLossy_encode (cs : List Char) : decodeLossy (encode cs) = cs := by
  rw [decodeLossy, pieces_encode, List.map_map]
  exact List.map_id cs

theorem collect_char (offset : Nat) (cs : List Char) : collect offset (cs.map .char) = .ok cs := by
  induction cs generalizing offset with
  | nil => rfl
  | cons c cs ih => rw [List.map_cons, collect, ih, Except.map]

theorem pieces_of_collect {offset : Nat} {ps : List Piece} {cs : List Char}
    (h : collect offset ps = .ok cs) : ps = cs.map .char := by
  induction ps generalizing offset cs with
  | nil => cases h; rfl
  | cons p ps ih =>
    cases p with
    | char c =>
      rw [collect] at h
      cases hrest : collect (offset + width c) ps with
      | error e => simp [hrest, Except.map] at h
      | ok ds =>
        rw [hrest] at h
        cases h
        rw [ih hrest, List.map_cons]
    | fault n cut => cases h

theorem decode_encode (cs : List Char) : decode (encode cs) = .ok cs := by
  rw [decode, pieces_encode, collect_char]

end Utf8
end FileWarden
