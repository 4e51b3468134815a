import FileWarden.Proofs.Text.Utf8
import Mathlib

/-!
# What lossy reading adds

- **Bytes** (`bytes_pieces`): any bytes are cut into pieces that have as many bytes between them.
  What was begun (`Begun.Sound`) can only be ended by a character of the right width.
- **Texts** (`size_decodeLossy`): the lossy text takes as many bytes and those by which it grows
  (`growth`). `U+FFFD` takes three bytes, and the fault that it stands for may have fewer.
- **UTF-8** (`growth_of_decode`): if there is no fault, the text does not grow.
- **NUL** (`nul_not_mem_decodeLossy`): the text holds no NUL that the bytes do not hold.
-/

namespace FileWarden
namespace Utf8

variable {o : Option Begun} {bs : List UInt8} {b : UInt8} {p : Piece}

/-- The bytes that a piece was cut from. -/
def Piece.bytes : Piece → Nat
  | char c => width c
  | fault n _ => n

/-- How many bytes more a text takes with the character that a piece is read as. -/
def Piece.growth : Piece → Nat
  | char _ => 0
  | fault n _ => 3 - n

/-- A fault has one byte at least, and not so many as the longest character. -/
def Piece.Sound : Piece → Prop
  | char _ => True
  | fault n _ => 1 ≤ n ∧ n ≤ 3

/-- How many bytes more the lossy text of some bytes takes. -/
def growth (bs : List UInt8) : Nat := ((pieces none bs).map Piece.growth).sum

/-! ## Bytes -/

theorem toNat_ofNat {n : Nat} (h : n < 0xD800 ∨ 0xDFFF < n ∧ n < 0x110000) :
    (Char.ofNat n).toNat = n := by
  rw [Char.ofNat, dif_pos h]
  rfl

/-- How many bytes a character takes, by its number. -/
theorem width_ofNat {n : Nat} (h : n < 0xD800 ∨ 0xDFFF < n ∧ n < 0x110000) :
    width (Char.ofNat n) =
      if n < 0x80 then 1 else if n < 0x800 then 2 else if n < 0x10000 then 3 else 4 := by
  rw [width, toNat_ofNat h]

/-- Whatever bytes follow in range, the character takes those that were read, the next one and those
after it, and there are four at most. -/
structure Begun.Sound (s : Begun) : Prop where
  read_pos : 1 ≤ s.read
  short : s.read + s.after ≤ 3
  width : ∀ n, (s.bits * 64 + (s.low.toNat - 0x80)) * 64 ^ s.after ≤ n →
    n < (s.bits * 64 + (s.high.toNat - 0x80) + 1) * 64 ^ s.after →
    width (Char.ofNat n) = s.read + s.after + 1

namespace Begun

theorem sound_two {n : Nat} (h : 0xC2 ≤ n) (h' : n < 0xE0) :
    Sound ⟨0, 0x80, 0xBF, n - 0xC0, 1⟩ where
  read_pos := Nat.le_refl _
  short := by simp only; omega
  width m hlow hhigh := by
    simp only [UInt8.reduceToNat] at hlow hhigh
    rw [width_ofNat (by omega)]
    grind

theorem sound_three {b : UInt8} (h : 0xE0 ≤ b.toNat) (h' : b.toNat < 0xF0) :
    Sound ⟨1, if b = 0xE0 then 0xA0 else 0x80, if b = 0xED then 0x9F else 0xBF,
      b.toNat - 0xE0, 1⟩ where
  read_pos := Nat.le_refl _
  short := by simp only; omega
  width m hlow hhigh := by
    simp only [← UInt8.toNat_inj, UInt8.reduceToNat, apply_ite UInt8.toNat] at hlow hhigh
    rw [width_ofNat (by grind)]
    grind

theorem sound_four {b : UInt8} (h : 0xF0 ≤ b.toNat) (h' : b.toNat < 0xF5) :
    Sound ⟨2, if b = 0xF0 then 0x90 else 0x80, if b = 0xF4 then 0x8F else 0xBF,
      b.toNat - 0xF0, 1⟩ where
  read_pos := Nat.le_refl _
  short := by simp only; omega
  width m hlow hhigh := by
    simp only [← UInt8.toNat_inj, UInt8.reduceToNat, apply_ite UInt8.toNat] at hlow hhigh
    rw [width_ofNat (by grind)]
    grind

/-- One byte more, in range. -/
theorem Sound.more {s : Begun} {k : Nat} (h : s.Sound) (hk : s.after = k + 1)
    (hb : s.low ≤ b ∧ b ≤ s.high) :
    Sound ⟨k, 0x80, 0xBF, s.bits * 64 + (b.toNat - 0x80), s.read + 1⟩ where
  read_pos := Nat.le_add_left ..
  short := by
    have := h.short
    simp only
    omega
  width m hlow hhigh := by
    have hb_low := UInt8.le_iff_toNat_le.mp hb.1
    have hb_high := UInt8.le_iff_toNat_le.mp hb.2
    have hwidth := h.width m
    rw [hk, Nat.pow_succ'] at hwidth
    simp only [UInt8.reduceToNat, Nat.reduceSub, Nat.add_zero, Nat.add_assoc, Nat.reduceAdd]
      at hlow hhigh
    rw [hwidth]
    · simp only
      omega
    · calc (s.bits * 64 + (s.low.toNat - 0x80)) * (64 * 64 ^ k)
        _ ≤ (s.bits * 64 + (b.toNat - 0x80)) * (64 * 64 ^ k) :=
          Nat.mul_le_mul_right _ (by omega)
        _ = (s.bits * 64 + (b.toNat - 0x80)) * 64 * 64 ^ k := (Nat.mul_assoc ..).symm
        _ ≤ m := hlow
    · calc m
        _ < ((s.bits * 64 + (b.toNat - 0x80)) * 64 + 64) * 64 ^ k := hhigh
        _ = (s.bits * 64 + (b.toNat - 0x80) + 1) * 64 * 64 ^ k := by
          rw [Nat.add_one_mul (s.bits * 64 + (b.toNat - 0x80)) 64]
        _ = (s.bits * 64 + (b.toNat - 0x80) + 1) * (64 * 64 ^ k) := Nat.mul_assoc ..
        _ ≤ (s.bits * 64 + (s.high.toNat - 0x80) + 1) * (64 * 64 ^ k) :=
          Nat.mul_le_mul_right _ (by omega)

/-- The last byte, in range. -/
theorem Sound.last {s : Begun} (h : s.Sound) (hk : s.after = 0) (hb : s.low ≤ b ∧ b ≤ s.high) :
    Utf8.width (Char.ofNat (s.bits * 64 + (b.toNat - 0x80))) = s.read + 1 := by
  have hlow := UInt8.le_iff_toNat_le.mp hb.1
  have hhigh := UInt8.le_iff_toNat_le.mp hb.2
  have hwidth := h.width (s.bits * 64 + (b.toNat - 0x80))
  rw [hk, Nat.pow_zero, Nat.mul_one, Nat.mul_one, Nat.add_zero] at hwidth
  exact hwidth (by omega) (by omega)

end Begun

/-- The bytes of a character that was begun. -/
def held : Option Begun → Nat
  | none => 0
  | some s => s.read

/-- What was cut off and what was begun have so many bytes. -/
structure Accounts (n : Nat) (r : Option Begun × List Piece) : Prop where
  begun : ∀ s ∈ r.1, s.Sound
  pieces : ∀ p ∈ r.2, p.Sound
  bytes : (r.2.map Piece.bytes).sum + held r.1 = n

theorem accounts_begun {s : Begun} (h : s.Sound) : Accounts s.read (some s, []) where
  begun := by simpa using h
  pieces := by simp
  bytes := by simp [held]

theorem accounts_piece {n : Nat} (h : p.Sound) (hn : p.bytes = n) : Accounts n (none, [p]) where
  begun := by simp
  pieces := by simpa using h
  bytes := by simp [held, hn]

theorem accounts_first (b : UInt8) : Accounts 1 (first b) := by
  simp only [first, UInt8.lt_iff_toNat_lt, UInt8.reduceToNat]
  split
  · exact accounts_piece trivial (width_ofNat (by omega) |>.trans (if_pos (by assumption)))
  split
  · exact accounts_piece ⟨by decide, by decide⟩ rfl
  split
  · exact accounts_begun (Begun.sound_two (by omega) (by omega))
  split
  · exact accounts_begun (Begun.sound_three (by omega) (by omega))
  split
  · exact accounts_begun (Begun.sound_four (by omega) (by omega))
  · exact accounts_piece ⟨by decide, by decide⟩ rfl

/-- A step accounts for the byte and for what was begun. -/
theorem accounts_step (h : ∀ s ∈ o, s.Sound) (b : UInt8) : Accounts (held o + 1) (step o b) := by
  cases o with
  | none => exact accounts_first b
  | some s =>
    have hs : s.Sound := h s rfl
    simp only [step]
    split
    · rename_i hb
      split
      · rename_i hk
        exact accounts_piece trivial (hs.last hk hb)
      · rename_i k hk
        exact accounts_begun (hs.more hk hb)
    · -- What was begun is a fault, and the byte is read again in first place.
      have hfirst := accounts_first b
      have hfault : (Piece.fault s.read false).Sound := ⟨hs.read_pos, by have := hs.short; omega⟩
      refine ⟨hfirst.begun, List.forall_mem_cons.mpr ⟨hfault, hfirst.pieces⟩, ?_⟩
      have hbytes := hfirst.bytes
      rw [List.map_cons, List.sum_cons, Piece.bytes, Nat.add_assoc, hbytes]
      rfl

/-- All bytes are in the pieces. -/
theorem accounts_pieces (h : ∀ s ∈ o, s.Sound) (bs : List UInt8) :
    Accounts (held o + bs.length) (none, pieces o bs) := by
  fun_induction pieces o bs with
  | case1 => exact ⟨by simp, by simp, rfl⟩
  | case2 s =>
    have hs : s.Sound := h s rfl
    exact accounts_piece ⟨hs.read_pos, by have := hs.short; omega⟩ rfl
  | case3 o b bs ih =>
    have hstep := accounts_step h b
    have hrest := ih hstep.begun
    refine ⟨by simp, List.forall_mem_append.mpr ⟨hstep.pieces, hrest.pieces⟩, ?_⟩
    have hbytes := hstep.bytes
    have hmore := hrest.bytes
    simp only [held, List.map_append, List.sum_append, List.length_cons] at hbytes hmore ⊢
    omega

theorem sound_of_mem_pieces (h : p ∈ pieces none bs) : p.Sound :=
  (accounts_pieces (by simp) bs).pieces p h

/-- Any bytes are cut into pieces with as many bytes. -/
theorem bytes_pieces (bs : List UInt8) : ((pieces none bs).map Piece.bytes).sum = bs.length := by
  have hbytes := (accounts_pieces (o := none) (by simp) bs).bytes
  simpa [held] using hbytes

/-! ## Texts -/

/-- A text grows with a piece by the bytes that `U+FFFD` has more than a fault. -/
theorem width_lossy (h : p.Sound) : width p.lossy = p.bytes + p.growth := by
  cases p with
  | char c => rfl
  | fault n cut =>
    have hwidth : width '\uFFFD' = 3 := rfl
    have hn : n ≤ 3 := h.2
    simp only [Piece.lossy, Piece.bytes, Piece.growth, hwidth]
    omega

theorem size_lossy {ps : List Piece} (h : ∀ p ∈ ps, p.Sound) :
    size (ps.map Piece.lossy) = (ps.map Piece.bytes).sum + (ps.map Piece.growth).sum := by
  induction ps with
  | nil => rfl
  | cons p ps ih =>
    obtain ⟨hp, hps⟩ := List.forall_mem_cons.mp h
    simp only [List.map_cons, size_cons, List.sum_cons, width_lossy hp, ih hps]
    omega

/-- The lossy text of some bytes takes as many bytes, and those by which it grows. -/
theorem size_decodeLossy (bs : List UInt8) : size (decodeLossy bs) = bs.length + growth bs := by
  rw [decodeLossy, size_lossy fun _ => sound_of_mem_pieces, bytes_pieces, growth]

theorem sum_growth_le {ps : List Piece} (h : ∀ p ∈ ps, p.Sound) :
    (ps.map Piece.growth).sum ≤ 2 * (ps.map Piece.bytes).sum := by
  induction ps with
  | nil => simp
  | cons p ps ih =>
    obtain ⟨hp, hps⟩ := List.forall_mem_cons.mp h
    have hgrowth : p.growth ≤ 2 * p.bytes := by
      cases p with
      | char c => exact Nat.zero_le _
      | fault n cut =>
        have hn : 1 ≤ n := hp.1
        simp only [Piece.growth, Piece.bytes]
        omega
    have hrest := ih hps
    simp only [List.map_cons, List.sum_cons]
    omega

/-- A byte becomes three at most. -/
theorem growth_le (bs : List UInt8) : growth bs ≤ 2 * bs.length := by
  rw [growth, ← bytes_pieces bs]
  exact sum_growth_le fun _ => sound_of_mem_pieces

/-! ## UTF-8 -/

/-- The lossy text of UTF-8 does not grow. -/
theorem growth_of_decode {cs : List Char} (h : decode bs = .ok cs) : growth bs = 0 := by
  have hchars : (pieces none bs).map Piece.growth = cs.map fun _ => 0 := by
    rw [pieces_of_collect h, List.map_map]
    rfl
  rw [growth, hchars, List.map_const', List.sum_replicate, smul_zero]

/-! ## NUL -/

theorem nul_of_first (h : .char '\x00' ∈ (first b).2) : b = 0 := by
  simp only [first, UInt8.lt_iff_toNat_lt, UInt8.reduceToNat] at h
  split at h
  · rename_i hone
    have hchar := Piece.char.inj (List.mem_singleton.mp h)
    have hnat : (Char.ofNat b.toNat).toNat = b.toNat := toNat_ofNat (by omega)
    rw [← hchar] at hnat
    exact UInt8.toNat_inj.mp hnat.symm
  split at h
  · simp at h
  split at h
  · simp at h
  split at h
  · simp at h
  split at h
  · simp at h
  · simp at h

/-- A NUL is cut off only where the byte is a NUL. -/
theorem nul_of_step (ho : ∀ s ∈ o, s.Sound) (h : .char '\x00' ∈ (step o b).2) : b = 0 := by
  cases o with
  | none => exact nul_of_first h
  | some s =>
    have hs : s.Sound := ho s rfl
    simp only [step] at h
    split at h
    · rename_i hb
      split at h
      · rename_i hk
        -- A character of two bytes or more is no NUL.
        have hwidth := hs.last hk hb
        rw [← Piece.char.inj (List.mem_singleton.mp h)] at hwidth
        have hone : width '\x00' = 1 := rfl
        have := hs.read_pos
        omega
      · simp at h
    · rcases List.mem_cons.mp h with h | h
      · cases h
      · exact nul_of_first h

theorem nul_of_pieces (ho : ∀ s ∈ o, s.Sound) (h : .char '\x00' ∈ pieces o bs) : 0 ∈ bs := by
  fun_induction pieces o bs with
  | case1 => simp at h
  | case2 s => simp at h
  | case3 o b bs ih =>
    rcases List.mem_append.mp h with h | h
    · exact List.mem_cons.mpr (.inl (nul_of_step ho h).symm)
    · exact List.mem_cons_of_mem _ (ih (accounts_step ho b).begun h)

/-- Only a NUL is read as a NUL. -/
theorem nul_not_mem_decodeLossy (h : 0 ∉ bs) : '\x00' ∉ decodeLossy bs := by
  intro hmem
  obtain ⟨p, hp, hnul⟩ := List.mem_map.mp hmem
  cases p with
  | char c =>
    obtain rfl : c = '\x00' := hnul
    exact h (nul_of_pieces (by simp) hp)
  | fault n cut =>
    have hne : '\uFFFD' ≠ '\x00' := by decide
    exact hne hnul

end Utf8
end FileWarden
