import FileWarden.Proofs.Text.Utf8
import Mathlib.Order.Bounds.Basic

/-!
# Boundaries of characters

The bytes of a text can be cut at a boundary of its characters. A byte tells by itself whether it
begins a character or follows in one, so a boundary is seen without reading the bytes before it.

- **Boundaries** (`isBoundary_iff`): the offsets that are sizes of beginnings of the text.
- **Searching** (`exists_boundaryAtMost`): a search downwards ends at the greatest boundary up to
  where it began. It does not go below 0, which is a boundary of all bytes.
- **Cutting** (`isGreatest_keep`): the characters that fit into so many bytes end at that boundary,
  and no longer beginning fits (`isPrefix_keep`).
-/

namespace FileWarden
namespace Utf8

variable {n : Nat} {c : Char} {cs before : List Char} {bs : List UInt8}

/-! ## Bytes of a character -/

/-- Whether a byte follows another one in a character. -/
def follows (b : UInt8) : Bool := 0x80 ≤ b && b < 0xC0

theorem follows_toUInt8 (h : n < 256) : follows n.toUInt8 = true ↔ 0x80 ≤ n ∧ n < 0xC0 := by
  simp [follows, UInt8.le_iff_toNat_le, UInt8.lt_iff_toNat_lt, toNat_toUInt8 h]

theorem follows_six (m : Nat) : follows (0x80 + m % 64).toUInt8 = true :=
  (follows_toUInt8 (by omega)).mpr (by omega)

theorem not_follows_first (hn : n < 256) (h : n < 0x80 ∨ 0xC0 ≤ n) :
    ¬ follows n.toUInt8 = true := by
  rw [follows_toUInt8 hn]
  omega

/-- The first byte of a character follows none, and the others do. -/
theorem exists_encodeChar (c : Char) : ∃ b bs, encodeChar c = b :: bs ∧ ¬ follows b = true ∧
    ∀ d ∈ bs, follows d = true := by
  have hvalid : c.toNat < 0xD800 ∨ 0xDFFF < c.toNat ∧ c.toNat < 0x110000 := c.valid
  simp only [encodeChar]
  split
  · exact ⟨_, _, rfl, not_follows_first (by omega) (by omega), List.forall_mem_nil _⟩
  split
  · refine ⟨_, _, rfl, not_follows_first (by omega) (by omega), ?_⟩
    exact List.forall_mem_singleton.mpr (follows_six _)
  split
  · refine ⟨_, _, rfl, not_follows_first (by omega) (by omega), ?_⟩
    exact List.forall_mem_cons.mpr ⟨follows_six _, List.forall_mem_singleton.mpr (follows_six _)⟩
  · refine ⟨_, _, rfl, not_follows_first (by omega) (by omega), ?_⟩
    exact List.forall_mem_cons.mpr ⟨follows_six _,
      List.forall_mem_cons.mpr ⟨follows_six _, List.forall_mem_singleton.mpr (follows_six _)⟩⟩

/-! ## Boundaries -/

/-- Whether bytes can be cut at an offset: at their ends, and where no byte follows another one. -/
def isBoundary (bs : List UInt8) (n : Nat) : Bool :=
  n == 0 || match bs[n]? with
    | some b => !follows b
    | none => n == bs.length

@[simp] theorem isBoundary_zero (bs : List UInt8) : isBoundary bs 0 = true := rfl

theorem isBoundary_nil : isBoundary [] n = true ↔ n = 0 := by
  simp [isBoundary]

/-- Inside a character there is no boundary. -/
theorem not_isBoundary_inside (hpos : 0 < n) (hn : n < width c) (bs : List UInt8) :
    ¬ isBoundary (encodeChar c ++ bs) n = true := by
  obtain ⟨b, ds, hc, -, hfollows⟩ := exists_encodeChar c
  have hlength := length_encodeChar c
  rw [hc, List.length_cons] at hlength
  obtain ⟨m, rfl⟩ := Nat.exists_eq_add_of_le' hpos
  have hm : m < ds.length := by omega
  have hbyte : (encodeChar c ++ bs)[m + 1]? = some ds[m] := by
    rw [hc, List.cons_append, List.getElem?_cons_succ, List.getElem?_append_left hm,
      List.getElem?_eq_getElem hm]
  simp [isBoundary, hbyte, hfollows _ (List.getElem_mem hm)]

/-- Behind a character, the boundaries are those of the bytes behind it. -/
theorem isBoundary_behind (h : width c ≤ n) (cs : List Char) :
    isBoundary (encodeChar c ++ encode cs) n = isBoundary (encode cs) (n - width c) := by
  have hpos := width_pos c
  have hlength := length_encodeChar c
  have hbyte : (encodeChar c ++ encode cs)[n]? = (encode cs)[n - width c]? := by
    rw [List.getElem?_append_right (by omega), hlength]
  rw [isBoundary, isBoundary, hbyte, List.length_append, hlength]
  rcases Nat.eq_or_lt_of_le h with rfl | hlt
  · -- What stands here begins the next character, if there is one.
    rw [Nat.sub_self]
    cases cs with
    | nil => simp
    | cons d ds =>
      obtain ⟨b, bs, hd, hfirst, -⟩ := exists_encodeChar d
      simp [hd, hfirst]
  · have hzero : (n == 0) = (n - width c == 0) := by
      rw [beq_false_of_ne (by omega), beq_false_of_ne (by omega)]
    have hend : (n == width c + (encode cs).length) = (n - width c == (encode cs).length) := by
      rw [Bool.eq_iff_iff, beq_iff_eq, beq_iff_eq]
      omega
    rw [hzero, hend]

/-- A boundary lies behind some characters of the text. -/
theorem isBoundary_iff :
    isBoundary (encode cs) n = true ↔ ∃ before, before <+: cs ∧ size before = n := by
  induction cs generalizing n with
  | nil =>
    rw [encode_nil, isBoundary_nil]
    simp [eq_comm]
  | cons c cs ih =>
    have hbefore : (∃ before, before <+: c :: cs ∧ size before = n) ↔
        n = 0 ∨ ∃ before, before <+: cs ∧ width c + size before = n := by
      simp only [List.prefix_cons_iff]
      constructor
      · rintro ⟨_, rfl | ⟨before, rfl, h⟩, rfl⟩
        · exact .inl rfl
        · exact .inr ⟨before, h, rfl⟩
      · rintro (rfl | ⟨before, h, rfl⟩)
        · exact ⟨[], .inl rfl, rfl⟩
        · exact ⟨c :: before, .inr ⟨before, rfl, h⟩, rfl⟩
    rw [encode_cons, hbefore]
    rcases Nat.eq_zero_or_pos n with rfl | hpos
    · simp
    by_cases hc : width c ≤ n
    · rw [isBoundary_behind hc, ih]
      constructor
      · rintro ⟨before, h, hsize⟩
        exact .inr ⟨before, h, by omega⟩
      · rintro (rfl | ⟨before, h, rfl⟩)
        · omega
        · exact ⟨before, h, by omega⟩
    · refine iff_of_false (not_isBoundary_inside hpos (Nat.not_le.mp hc) _) ?_
      rintro (rfl | ⟨before, -, rfl⟩) <;> omega

/-! ## Searching -/

/-- The first boundary on the way down from an offset; nothing if the way leads below 0. -/
def boundaryAtMost? (bs : List UInt8) : Nat → Option Nat
  | 0 => if isBoundary bs 0 then some 0 else none
  | n + 1 => if isBoundary bs (n + 1) then some (n + 1) else boundaryAtMost? bs n

/-- The search ends, at the greatest boundary. -/
theorem exists_boundaryAtMost (bs : List UInt8) (n : Nat) :
    ∃ m, boundaryAtMost? bs n = some m ∧ IsGreatest {k | k ≤ n ∧ isBoundary bs k = true} m := by
  induction n with
  | zero => exact ⟨0, rfl, ⟨Nat.le_refl 0, rfl⟩, fun k hk => hk.1⟩
  | succ n ih =>
    by_cases h : isBoundary bs (n + 1) = true
    · exact ⟨n + 1, by rw [boundaryAtMost?, if_pos h], ⟨Nat.le_refl _, h⟩, fun k hk => hk.1⟩
    · obtain ⟨m, hm, ⟨hle, hboundary⟩, hgreatest⟩ := ih
      refine ⟨m, by rw [boundaryAtMost?, if_neg h, hm], ⟨Nat.le_succ_of_le hle, hboundary⟩, ?_⟩
      rintro k ⟨hk, hkb⟩
      have hne : k ≠ n + 1 := fun heq => h (heq ▸ hkb)
      exact hgreatest ⟨by omega, hkb⟩

/-- Characters of one to four bytes; the search begins inside the last one. -/
example : boundaryAtMost? (encode "aé€😀".toList) 9 = some 6 := by decide +kernel

/-! ## Cutting -/

theorem keep_isPrefix (n : Nat) (cs : List Char) : keep n cs <+: cs := by
  induction cs generalizing n with
  | nil => exact List.nil_prefix
  | cons c cs ih =>
    rw [keep]
    split
    · exact (List.prefix_cons_inj c).mpr (ih _)
    · exact List.nil_prefix

/-- No beginning of a text fits that is longer than what is kept. -/
theorem isPrefix_keep (h : before <+: cs) (hsize : size before ≤ n) : before <+: keep n cs := by
  induction cs generalizing n before with
  | nil => rw [List.prefix_nil.mp h]; exact List.nil_prefix
  | cons c cs ih =>
    rcases List.prefix_cons_iff.mp h with rfl | ⟨rest, rfl, hrest⟩
    · exact List.nil_prefix
    · rw [size_cons] at hsize
      rw [keep, if_pos (by omega)]
      exact (List.prefix_cons_inj c).mpr (ih hrest (by omega))

theorem size_le_of_isPrefix (h : before <+: cs) : size before ≤ size cs := by
  obtain ⟨rest, rfl⟩ := h
  rw [size_append]
  exact Nat.le_add_right ..

theorem take_encode_of_isPrefix (h : before <+: cs) :
    (encode cs).take (size before) = encode before := by
  obtain ⟨rest, rfl⟩ := h
  rw [encode_append, ← length_encode, List.take_left]

/-- What fits into so many bytes ends at the greatest boundary within them. -/
theorem isGreatest_keep (n : Nat) (cs : List Char) :
    IsGreatest {k | k ≤ n ∧ isBoundary (encode cs) k = true} (size (keep n cs)) := by
  constructor
  · exact ⟨size_keep_le n cs, isBoundary_iff.mpr ⟨_, keep_isPrefix n cs, rfl⟩⟩
  · rintro k ⟨hk, hboundary⟩
    obtain ⟨before, hbefore, rfl⟩ := isBoundary_iff.mp hboundary
    exact size_le_of_isPrefix (isPrefix_keep hbefore hk)

theorem boundaryAtMost?_encode (n : Nat) (cs : List Char) :
    boundaryAtMost? (encode cs) n = some (size (keep n cs)) := by
  obtain ⟨m, hm, hgreatest⟩ := exists_boundaryAtMost (encode cs) n
  rw [hm, hgreatest.unique (isGreatest_keep n cs)]

end Utf8
end FileWarden
