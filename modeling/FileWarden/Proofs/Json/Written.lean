import FileWarden.Json.Value
import FileWarden.Json.Writer

/-!
# Reading back what is written

- **Strings** (`string_written`): a written string is read back up to its closing quote, whatever
  characters it has. Each stands as an escape or as itself (`WrittenAs`), and is read by one step.
- **Numbers** (`found_writeNat`, `found_writeInt`): so are whole numbers, if something follows that
  does not belong to them (`BehindValue`).
- **Values** (`ReadsAs`): read without a type, a string and a whole number are found as such.
- **Objects** (`members_written`): an object is read back by a reader of its members that takes each
  of them (`Taken`).
-/

namespace FileWarden
namespace Json

/-! ## Strings -/

theorem hexValue?_hexDigit : ∀ n < 16, hexValue? (hexDigit n) = some n := by decide

theorem hexNumber?_hexDigit {n : Nat} (h : n < 0x100) :
    hexNumber? '0' '0' (hexDigit (n / 16)) (hexDigit (n % 16)) = some n := by
  have hhigh := hexValue?_hexDigit (n / 16) (by omega)
  have hlow := hexValue?_hexDigit (n % 16) (by omega)
  have hzero : hexValue? '0' = some 0 := hexValue?_hexDigit 0 (by omega)
  simp only [hexNumber?, hhigh, hlow, hzero, Option.pure_def, Option.bind_eq_bind,
    Option.bind_some]
  congr 1
  omega

/-- An escape of four digits is read as the character that they number. -/
theorem escape_control {c : Char} (h : c.toNat < 0x20) (cs : List Char) :
    escape ('u' :: '0' :: '0' :: hexDigit (c.toNat / 16) :: hexDigit (c.toNat % 16) :: cs) =
      .ok (c, cs) := by
  have hsize : ¬ Utf8.size
      ('0' :: '0' :: hexDigit (c.toNat / 16) :: hexDigit (c.toNat % 16) :: cs) < 4 := by
    have := Utf8.width_pos (hexDigit (c.toNat / 16))
    have := Utf8.width_pos (hexDigit (c.toNat % 16))
    have := Utf8.width_pos '0'
    simp only [Utf8.size_cons]
    omega
  have hhex : hexEscape
      ('0' :: '0' :: hexDigit (c.toNat / 16) :: hexDigit (c.toNat % 16) :: cs) =
      .ok (c.toNat, cs) := by
    rw [hexEscape, if_neg hsize, hexNumber?_hexDigit (by omega)]
  have hlow : ¬ (0xDC00 ≤ c.toNat ∧ c.toNat ≤ 0xDFFF) := by omega
  have hbmp : c.toNat < 0xD800 ∨ 0xDBFF < c.toNat := by omega
  simp only [escape, unicodeEscape, hhex, bind, Except.bind, if_neg hlow, if_pos hbmp,
    Char.ofNat_toNat]

/-- How a character is written: as an escape that is read as the character, or as itself. -/
inductive WrittenAs (c : Char) : List Char → Prop where
  | escape (text : List Char) (hread : ∀ cs, Json.escape (text ++ cs) = .ok (c, cs))
    (hline : '\n' ∉ text) : WrittenAs c ('\\' :: text)
  | itself (hcontrol : ¬ c.toNat < 0x20) (hquote : c ≠ '"') (hslash : c ≠ '\\') : WrittenAs c [c]

theorem hexDigit_ne_newline : ∀ n < 16, hexDigit n ≠ '\n' := by decide

theorem writtenAs_writeChar (c : Char) : WrittenAs c (writeChar c) := by
  unfold writeChar
  -- The characters with an escape of one letter.
  iterate 7
    split
    · rename_i hc
      subst hc
      exact .escape _ (fun _ => rfl) (by decide)
  split
  · rename_i hcontrol
    have hhigh := hexDigit_ne_newline (c.toNat / 16) (by omega)
    have hlow := hexDigit_ne_newline (c.toNat % 16) (by omega)
    exact .escape _ (escape_control hcontrol) (by simp [Ne.symm hhigh, Ne.symm hlow])
  · rename_i hquote hslash _ _ _ _ _ hcontrol
    exact .itself hcontrol hquote hslash

/-- A written character is read back by one step. -/
theorem characters_writeChar (fuel : Nat) (c : Char) (cs : List Char) :
    characters (fuel + 1) (writeChar c ++ cs) =
      (characters fuel cs).map fun (tail, rest) => (c :: tail, rest) := by
  have h := writtenAs_writeChar c
  generalize writeChar c = text at h ⊢
  cases h with
  | escape text hread =>
    rw [List.cons_append]
    simp only [characters, hread, bind, Except.bind, pure, Except.pure]
    rfl
  | itself hcontrol hquote hslash =>
    rw [List.singleton_append, characters, if_neg hcontrol]
    · rfl
    · exact hquote
    · exact hslash

theorem length_le_flatMap_writeChar (cs : List Char) :
    cs.length ≤ (cs.flatMap writeChar).length := by
  induction cs with
  | nil => exact Nat.le_refl _
  | cons c cs ih =>
    have hpos : 0 < (writeChar c).length := by
      have h := writtenAs_writeChar c
      generalize writeChar c = text at h ⊢
      cases h <;> exact Nat.succ_pos _
    rw [List.flatMap_cons, List.length_append, List.length_cons]
    omega

theorem characters_written {fuel : Nat} {cs : List Char} (h : cs.length < fuel)
    (rest : List Char) :
    characters fuel (cs.flatMap writeChar ++ '"' :: rest) = .ok (cs, rest) := by
  induction cs generalizing fuel with
  | nil =>
    obtain ⟨fuel, rfl⟩ := Nat.exists_eq_add_of_le' h
    rfl
  | cons c cs ih =>
    obtain ⟨fuel, rfl⟩ := Nat.exists_eq_add_of_le' (Nat.zero_lt_of_lt h)
    rw [List.flatMap_cons, List.append_assoc, characters_writeChar,
      ih (Nat.lt_of_succ_lt_succ h)]
    rfl

/-- A written string is read back up to its closing quote. -/
theorem string_written (s : String) (rest : List Char) :
    string (s.toList.flatMap writeChar ++ '"' :: rest) = .ok (s, rest) := by
  have hfuel : s.toList.length <
      (s.toList.flatMap writeChar ++ '"' :: rest).length + 1 := by
    have := length_le_flatMap_writeChar s.toList
    rw [List.length_append]
    omega
  simp only [string, characters_written hfuel, Except.map, String.ofList_toList]

theorem found_writeString (s : String) (rest : List Char) :
    found (writeString s ++ rest) = .ok (.string s, rest) := by
  have htext : writeString s ++ rest = '"' :: (s.toList.flatMap writeChar ++ '"' :: rest) := by
    simp [writeString]
  have hblank : isBlank '"' = false := rfl
  rw [htext, found, skipBlanks, List.dropWhile_cons_of_neg (by simp [hblank])]
  simp only [string_written, Except.map]

/-! ## Numbers -/

/-- What stands behind a value in an object. -/
def BehindValue (rest : List Char) : Prop := ∃ cs, rest = ',' :: cs ∨ rest = '\x7d' :: cs

theorem BehindValue.comma (cs : List Char) : BehindValue (',' :: cs) := ⟨cs, .inl rfl⟩

theorem BehindValue.brace (cs : List Char) : BehindValue ('\x7d' :: cs) := ⟨cs, .inr rfl⟩

theorem BehindValue.not_digit {rest : List Char} (h : BehindValue rest) :
    startsWithDigit rest = false := by
  obtain ⟨cs, rfl | rfl⟩ := h <;> rfl

theorem le_ofDigitChars (ds : List Char) (n : Nat) : n ≤ Nat.ofDigitChars 10 ds n := by
  induction ds generalizing n with
  | nil => exact Nat.le_refl n
  | cons d ds ih =>
    rw [Nat.ofDigitChars_cons]
    have := ih (10 * n + (d.toNat - '0'.toNat))
    omega

/-- Digits within a limit are read onto a number to their end. -/
theorem digits_append {limit n count : Nat} {ds rest : List Char}
    (hds : ∀ d ∈ ds, d.isDigit = true) (hrest : startsWithDigit rest = false)
    (hlimit : Nat.ofDigitChars 10 ds n ≤ limit) : digits limit n count (ds ++ rest) =
      (Nat.ofDigitChars 10 ds n, count + ds.length, rest) := by
  induction ds generalizing n count with
  | nil =>
    cases rest with
    | nil => rfl
    | cons c cs =>
      have hc : c.isDigit = false := hrest
      simp [digits, hc]
  | cons d ds ih =>
    rw [Nat.ofDigitChars_cons, Nat.mul_comm] at hlimit
    have hd : d.isDigit = true := hds d List.mem_cons_self
    have hle : n * 10 + digitValue d ≤ limit := Nat.le_trans (le_ofDigitChars ds _) hlimit
    have hstep : (d.isDigit && decide (n * 10 + digitValue d ≤ limit)) = true := by simp [hd, hle]
    rw [List.cons_append, digits, if_pos hstep, Nat.ofDigitChars_cons, Nat.mul_comm 10 n]
    refine (ih (fun c hc => hds c (List.mem_cons_of_mem _ hc)) hlimit).trans ?_
    rw [List.length_cons, Nat.add_assoc, Nat.add_comm 1]

/-- The digits of a number have no zero in front. -/
theorem exists_toDigits {n : Nat} (h : 0 < n) :
    ∃ d ds, Nat.toDigits 10 n = d :: ds ∧ d ≠ '0' := by
  induction n using Nat.strongRecOn with
  | ind n ih =>
    by_cases hn : n < 10
    · refine ⟨n.digitChar, [], Nat.toDigits_of_lt_base hn, ?_⟩
      have hdigit : ∀ n < 10, 0 < n → n.digitChar ≠ '0' := by decide
      exact hdigit n hn h
    · obtain ⟨d, ds, hds, hd⟩ := ih (n / 10) (by omega) (by omega)
      refine ⟨d, ds ++ [(n % 10).digitChar], ?_, hd⟩
      rw [Nat.toDigits_of_base_le (by omega) (by omega), hds, List.cons_append]

theorem isDigit_of_mem_writeNat {n : Nat} {c : Char} (h : c ∈ writeNat n) : c.isDigit = true :=
  Nat.isDigit_of_mem_toDigits (by omega) (by omega) h

theorem number_writeNat (negative : Bool) {n : Nat} (hn : n ≤ maxWhole) {rest : List Char}
    (hrest : BehindValue rest) :
    number negative (writeNat n ++ rest) = afterWhole negative n rest := by
  have hstop := hrest.not_digit
  rcases Nat.eq_zero_or_pos n with rfl | hpos
  · rw [writeNat, Nat.toDigits_zero, List.singleton_append, number, hstop]
    rfl
  · obtain ⟨d, ds, hds, hd⟩ := exists_toDigits hpos
    have hdigits : ∀ c ∈ d :: ds, c.isDigit = true := fun c hc =>
      isDigit_of_mem_writeNat (n := n) (by rwa [writeNat, hds])
    have hvalue : Nat.ofDigitChars 10 ds (digitValue d) = n := by
      have := Nat.ofDigitChars_ten_toDigits (n := n)
      rw [hds, Nat.ofDigitChars_cons, Nat.mul_zero, Nat.zero_add] at this
      exact this
    have hread : digits maxWhole (digitValue d) 1 (ds ++ rest) = (n, 1 + ds.length, rest) := by
      rw [digits_append (fun c hc => hdigits c (List.mem_cons_of_mem _ hc)) hstop (by rwa [hvalue]),
        hvalue]
    rw [writeNat, hds, List.cons_append, number, if_pos (hdigits d List.mem_cons_self), hread]
    exact hd

theorem afterWhole_of_behind (negative : Bool) (n : Nat) {rest : List Char}
    (hrest : BehindValue rest) : afterWhole negative n rest =
      if !negative then .ok (.whole n, rest)
      else if n = 0 ∨ 0x8000000000000000 < n then finish true n 0 rest
      else .ok (.whole (-n), rest) := by
  obtain ⟨cs, rfl | rfl⟩ := hrest <;> simp [afterWhole]

/-- A digit begins a number and nothing else. -/
theorem found_of_isDigit {c : Char} (h : c.isDigit = true) (cs : List Char) :
    found (c :: cs) = (number false (c :: cs)).map fun (n, rest) => (.number n, rest) := by
  have hne {d : Char} (hd : d.isDigit = false) : c ≠ d := by
    rintro rfl
    rw [h] at hd
    cases hd
  have hblank : isBlank c = false := by
    simp [isBlank, hne (d := ' ') rfl, hne (d := '\t') rfl, hne (d := '\n') rfl,
      hne (d := '\r') rfl]
  rw [found, skipBlanks, List.dropWhile_cons_of_neg (by simp [hblank])]
  split
  case h_1 heq => cases heq
  case h_9 d ds _ _ _ _ _ _ _ heq =>
    obtain ⟨rfl, rfl⟩ := List.cons.inj heq
    rw [if_pos h]
  all_goals
    rename_i heq
    exact absurd (List.cons.inj heq).1 (hne rfl)

theorem found_writeNat {n : Nat} (hn : n ≤ maxWhole) {rest : List Char}
    (hrest : BehindValue rest) :
    found (writeNat n ++ rest) = .ok (.number (.whole n), rest) := by
  have hread := number_writeNat false hn hrest
  cases hdigits : writeNat n with
  | nil => exact absurd hdigits Nat.toDigits_ne_nil
  | cons d ds =>
    have hd : d.isDigit = true := isDigit_of_mem_writeNat (n := n) (by simp [hdigits])
    rw [hdigits, List.cons_append] at hread
    rw [List.cons_append, found_of_isDigit hd, hread, afterWhole_of_behind false n hrest]
    rfl

/-- A whole number of at most 63 bits and a sign is read back. -/
theorem found_writeInt {n : Int} (hn : n.natAbs ≤ 0x7FFFFFFFFFFFFFFF) {rest : List Char}
    (hrest : BehindValue rest) :
    found (writeInt n ++ rest) = .ok (.number (.whole n), rest) := by
  have hmax : n.natAbs ≤ maxWhole := Nat.le_trans hn (by decide)
  unfold writeInt
  split
  · rename_i hneg
    have hzero : ¬ (n.natAbs = 0 ∨ 0x8000000000000000 < n.natAbs) := by omega
    have hvalue : -(n.natAbs : Int) = n := by omega
    have hread := number_writeNat true hmax hrest
    rw [afterWhole_of_behind true n.natAbs hrest, if_neg (by simp), if_neg hzero, hvalue] at hread
    have hblank : isBlank '-' = false := rfl
    rw [List.cons_append, found, skipBlanks, List.dropWhile_cons_of_neg (by simp [hblank])]
    simp only [hread, Except.map]
  · rename_i hneg
    have hvalue : (n.natAbs : Int) = n := by omega
    rw [found_writeNat hmax hrest, hvalue]

/-! ## Typed values -/

theorem scalar_of_found {α : Type} {type : Found → Except Reason α} {f : Found} {a : α}
    {text rest : List Char} (hfound : found (text ++ rest) = .ok (f, rest))
    (htype : type f = .ok a) : scalar type (text ++ rest) = .ok (a, rest) := by
  simp only [scalar, hfound, bind, Except.bind, htype, pure, Except.pure]

theorem scalar_text (s : String) (rest : List Char) :
    scalar Found.text (writeString s ++ rest) = .ok (s, rest) :=
  scalar_of_found (found_writeString s rest) rfl

theorem u32_whole (n : UInt32) : Found.u32 (.number (.whole n.toNat)) = .ok n := by
  have hrange : (0 : Int) ≤ n.toNat ∧ n.toNat < UInt32.size := ⟨Int.natCast_nonneg _, n.toNat_lt⟩
  simp only [Found.u32, Found.whole, Int.toNat_natCast, if_pos hrange, UInt32.ofNat_toNat]

theorem toNat_le_maxWhole (n : UInt32) : n.toNat ≤ maxWhole :=
  Nat.le_of_lt (Nat.lt_trans n.toNat_lt (by decide))

theorem scalar_u32 (n : UInt32) {rest : List Char} (hrest : BehindValue rest) :
    scalar Found.u32 (writeNat n.toNat ++ rest) = .ok (n, rest) :=
  scalar_of_found (found_writeNat (toNat_le_maxWhole n) hrest) (u32_whole n)

theorem scalar_i32 (n : Int32) {rest : List Char} (hrest : BehindValue rest) :
    scalar Found.i32 (writeInt n.toInt ++ rest) = .ok (n, rest) := by
  have hlow := n.le_toInt
  have hhigh := n.toInt_lt
  refine scalar_of_found (found_writeInt (by omega) hrest) ?_
  have hrange := And.intro n.minValue_le_toInt n.toInt_le
  simp only [Found.i32, Found.whole, if_pos hrange, Int32.ofInt_toInt]

/-- A field that was not read before is read after its colon. -/
theorem field_of_scalar {α : Type} {type : Found → Except Reason α} {a : α}
    {text rest : List Char} (name : String) (h : scalar type text = .ok (a, rest)) :
    field name none type (':' :: text) = .ok (a, rest) := h

/-! ## Values -/

/-- A text that is read as a value, however deep it stands, if something follows that does not
belong to it. -/
def ReadsAs (text : List Char) (v : Value) : Prop :=
  ∀ depth rest, BehindValue rest → value depth (text ++ rest) = .ok (v, rest)

theorem readsAs_writeString (s : String) : ReadsAs (writeString s) (.string s) := by
  intro depth rest _
  unfold value
  simp only [found_writeString, bind, Except.bind]
  rfl

theorem readsAs_writeNat (n : UInt32) : ReadsAs (writeNat n.toNat) (.number (.whole n.toNat)) := by
  intro depth rest hrest
  unfold value
  simp only [found_writeNat (toNat_le_maxWhole n) hrest, bind, Except.bind]
  rfl

/-! ## Objects -/

/-- The members of an object behind its first one, each with the comma in front of it. -/
def moreMembers (ms : List (String × List Char)) : List Char := ms.flatMap (',' :: writeMember ·)

theorem intercalate_members (m : String × List Char) (ms : List (String × List Char)) :
    [','].intercalate ((m :: ms).map writeMember) = writeMember m ++ moreMembers ms := by
  induction ms generalizing m with
  | nil => simp [moreMembers, List.intercalate]
  | cons n ms ih =>
    rw [List.map_cons, List.map_cons, List.intercalate_cons_cons, ← List.map_cons, ih]
    simp [moreMembers]

theorem behindValue_moreMembers (ms : List (String × List Char)) (rest : List Char) :
    BehindValue (moreMembers ms ++ '\x7d' :: rest) := by
  cases ms with
  | nil => exact .brace rest
  | cons m ms => exact .comma _

/-- A reader of members takes these members one after the other, from one state to another. -/
inductive Taken {σ : Type} (member : σ → String → Reader σ) :
    σ → List (String × List Char) → σ → Prop where
  | nil (s : σ) : Taken member s [] s
  | cons {s t u : σ} {key : String} {text : List Char} {ms : List (String × List Char)}
    (head : ∀ rest, BehindValue rest → member s key (':' :: text ++ rest) = .ok (t, rest))
    (tail : Taken member t ms u) : Taken member s ((key, text) :: ms) u

section Members

variable {σ : Type} {member : σ → String → Reader σ} {s t u : σ} {ms : List (String × List Char)}

theorem members_step {fuel : Nat} {first : Bool} {key : String} {text cs rest : List Char}
    (hkey : toKey first cs = .ok (true, key.toList.flatMap writeChar ++ '"' :: (':' :: text ++ rest)))
    (hmember : member s key (':' :: text ++ rest) = .ok (t, rest)) :
    members member (fuel + 1) first s cs = members member fuel false t rest := by
  simp only [members, hkey, bind, Except.bind, string_written, hmember]

theorem writeMember_append (key : String) (text rest : List Char) :
    writeMember (key, text) ++ rest =
      '"' :: (key.toList.flatMap writeChar ++ '"' :: (':' :: text ++ rest)) := by
  simp [writeMember, writeString]

theorem members_moreMembers (h : Taken member s ms u) {fuel : Nat} (hfuel : ms.length < fuel)
    (rest : List Char) :
    members member fuel false s (moreMembers ms ++ '\x7d' :: rest) = .ok (u, rest) := by
  induction h generalizing fuel with
  | nil s =>
    obtain ⟨fuel, rfl⟩ := Nat.exists_eq_add_of_le' hfuel
    rfl
  | @cons s t u key text ms head tail ih =>
    obtain ⟨fuel, rfl⟩ := Nat.exists_eq_add_of_le' (Nat.zero_lt_of_lt hfuel)
    have htext : moreMembers ((key, text) :: ms) ++ '\x7d' :: rest =
        ',' :: (writeMember (key, text) ++ (moreMembers ms ++ '\x7d' :: rest)) := by
      simp [moreMembers]
    rw [htext, writeMember_append, members_step rfl (head _ (behindValue_moreMembers ms rest))]
    exact ih (Nat.lt_of_succ_lt_succ hfuel)

theorem length_le_moreMembers (ms : List (String × List Char)) :
    ms.length ≤ (moreMembers ms).length := by
  induction ms with
  | nil => exact Nat.le_refl _
  | cons m ms ih =>
    simp only [moreMembers, List.flatMap_cons, List.length_append, List.length_cons] at ih ⊢
    omega

/-- The members of a written object are read back up to its closing brace. -/
theorem members_written (h : Taken member s ms u) (rest : List Char) :
    let cs := [','].intercalate (ms.map writeMember) ++ '\x7d' :: rest
    members member (cs.length + 1) true s cs = .ok (u, rest) := by
  cases h with
  | nil => rfl
  | @cons _ t _ key text ms head tail =>
    intro cs
    have hcs : cs = '"' :: (key.toList.flatMap writeChar ++
        '"' :: (':' :: text ++ (moreMembers ms ++ '\x7d' :: rest))) := by
      rw [← writeMember_append, ← List.append_assoc, ← intercalate_members]
    have hfuel : ms.length < cs.length := by
      have := length_le_moreMembers ms
      rw [hcs]
      simp only [List.length_cons, List.length_append]
      omega
    have hkey : toKey true cs = .ok (true, key.toList.flatMap writeChar ++
        '"' :: (':' :: text ++ (moreMembers ms ++ '\x7d' :: rest))) := by
      rw [hcs]
      rfl
    rw [members_step hkey (head _ (behindValue_moreMembers ms rest))]
    exact members_moreMembers tail hfuel rest

end Members

/-! ## Lines -/

theorem newline_not_mem_writeChar (c : Char) : '\n' ∉ writeChar c := by
  have h := writtenAs_writeChar c
  generalize writeChar c = text at h ⊢
  cases h with
  | escape text _ hline => simpa using hline
  | itself hcontrol =>
    rw [List.mem_singleton]
    rintro rfl
    exact hcontrol (by decide)

theorem newline_not_mem_writeString (s : String) : '\n' ∉ writeString s := by
  simp [writeString, newline_not_mem_writeChar]

theorem newline_not_mem_writeNat (n : Nat) : '\n' ∉ writeNat n := fun h =>
  absurd (isDigit_of_mem_writeNat h) (by decide)

theorem newline_not_mem_writeInt (n : Int) : '\n' ∉ writeInt n := by
  unfold writeInt
  split <;> simp [newline_not_mem_writeNat]

/-- A written object stands on one line if its values do. -/
theorem newline_not_mem_writeObject {ms : List (String × List Char)}
    (h : ∀ m ∈ ms, '\n' ∉ m.2) : '\n' ∉ writeObject ms := by
  have hmembers : '\n' ∉ [','].intercalate (ms.map writeMember) := by
    cases ms with
    | nil => simp [List.intercalate]
    | cons m ms =>
      have hmember (m : String × List Char) (hm : '\n' ∉ m.2) : '\n' ∉ writeMember m := by
        simp [writeMember, newline_not_mem_writeString, hm]
      rw [intercalate_members, List.mem_append, not_or]
      refine ⟨hmember m (h m List.mem_cons_self), ?_⟩
      simp only [moreMembers, List.mem_flatMap, not_exists, not_and]
      intro n hn
      simp [hmember n (h n (List.mem_cons_of_mem _ hn))]
  simp [writeObject, hmembers]

end Json
end FileWarden
