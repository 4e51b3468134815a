import FileWarden.Proofs.Event.Capture
import FileWarden.Proofs.Text.Faultless

/-!
# The layout of records

- **Words** (`Record.wordBytes`): the bytes of a number, the lowest first. Flags are numbers in two's
  complement (`Record.twosComplement`).
- **Fields** (`Record.Field`): the bytes of a text, and if there is room behind them, a NUL and
  anything else.
- **Records** (`Record.Layout`): the words and fields of an event, one after the other, and anything
  behind them.
- **Slices** (`Record.decode_eq`): a record is read slice by slice, and of a field only what stands
  before its first NUL (`Event.throughNul`).
- **All of it** (`Record.decode_undoes_layout`).
-/

namespace FileWarden

/-! ## Fields up to a NUL -/

namespace Event

variable {bs cs : List UInt8}

/-- The bytes of a field up to its first NUL, and the NUL; all of them if there is none. -/
def throughNul (bs : List UInt8) : List UInt8 := bs.take ((captured bs).length + 1)

theorem captured_throughNul (bs : List UInt8) : captured (throughNul bs) = captured bs := by
  rw [throughNul, captured, captured, ← List.take_takeWhile]
  exact List.take_of_length_le (Nat.le_succ _)

theorem fieldText_eq (bs : List UInt8) :
    fieldText bs = String.ofList (Utf8.decodeLossy (captured bs)) := rfl

/-- What stands behind the first NUL of a field does not count. -/
theorem fieldText_congr (h : throughNul bs = throughNul cs) : fieldText bs = fieldText cs := by
  rw [fieldText_eq, fieldText_eq, ← captured_throughNul bs, h, captured_throughNul]

theorem fieldText_of_captured {s : String} (h : captured bs = Utf8.encode s.toList) :
    fieldText bs = s := by
  rw [fieldText_eq, h, Utf8.decodeLossy_encode, String.ofList_toList]

end Event

namespace Record

variable {bs cs : List UInt8} {e : Event} {max : Nat} {s : String}

/-! ## Words -/

/-- The lowest `k` bytes of a number, the lowest first. -/
def wordBytes : Nat → Nat → List UInt8
  | 0, _ => []
  | k + 1, n => (n % 256).toUInt8 :: wordBytes k (n / 256)

/-- The number that stands for flags: a negative one stands for its sum with `2 ^ 32`. -/
def twosComplement (flags : Int32) : Nat := (flags.toInt % 2 ^ 32).toNat

theorem length_wordBytes (k n : Nat) : (wordBytes k n).length = k := by
  induction k generalizing n with
  | zero => rfl
  | succ k ih => rw [wordBytes, List.length_cons, ih]

theorem word_wordBytes (k n : Nat) : word (wordBytes k n) = n % 256 ^ k := by
  induction k generalizing n with
  | zero => rw [wordBytes, word, Nat.pow_zero, Nat.mod_one]
  | succ k ih =>
    have hbyte : (n % 256).toUInt8.toNat = n % 256 := Utf8.toNat_toUInt8 (Nat.mod_lt _ (by decide))
    rw [wordBytes, word, ih, hbyte, Nat.pow_succ', Nat.mod_mul]

theorem word_lt (bs : List UInt8) : word bs < 256 ^ bs.length := by
  induction bs with
  | nil => exact Nat.one_pos
  | cons b bs ih =>
    have hb : b.toNat < 256 := b.toNat_lt
    rw [word, List.length_cons, Nat.pow_succ]
    omega

theorem wordBytes_word (bs : List UInt8) : wordBytes bs.length (word bs) = bs := by
  induction bs with
  | nil => rfl
  | cons b bs ih =>
    have hb : b.toNat < 256 := b.toNat_lt
    have hlow : (b.toNat + 256 * word bs) % 256 = b.toNat := by omega
    have hrest : (b.toNat + 256 * word bs) / 256 = word bs := by omega
    rw [List.length_cons, word, wordBytes, hlow, hrest, ih]
    exact congrArg (· :: bs) UInt8.ofNat_toNat

theorem ofNat_word_wordBytes (n : UInt32) : UInt32.ofNat (word (wordBytes 4 n.toNat)) = n := by
  have hn : n.toNat < 256 ^ 4 := n.toNat_lt
  rw [word_wordBytes, Nat.mod_eq_of_lt hn, UInt32.ofNat_toNat]

theorem wordBytes_ofNat_word (h : bs.length = 4) :
    wordBytes 4 (UInt32.ofNat (word bs)).toNat = bs := by
  have hlt := word_lt bs
  have hback := wordBytes_word bs
  rw [h] at hlt hback
  have hnat : (UInt32.ofNat (word bs)).toNat = word bs :=
    UInt32.toNat_ofNat'.trans (Nat.mod_eq_of_lt hlt)
  rw [hnat, hback]

theorem twosComplement_lt (flags : Int32) : twosComplement flags < 256 ^ 4 := by
  rw [twosComplement]
  omega

theorem ofNat_twosComplement (flags : Int32) : Int32.ofNat (twosComplement flags) = flags := by
  apply Int32.toInt_inj.mp
  rw [Int32.toInt_ofNat', twosComplement, Int.toNat_of_nonneg (Int.emod_nonneg _ (by decide))]
  exact (Int.emod_bmod flags.toInt (2 ^ 32)).trans (Int32.toInt_bmod_size flags)

theorem twosComplement_ofNat {n : Nat} (h : n < 256 ^ 4) :
    twosComplement (Int32.ofNat n) = n := by
  have hmod : (Int32.ofNat n).toInt % 2 ^ 32 = n := by
    rw [Int32.toInt_ofNat']
    exact Int.bmod_emod.trans (Int.emod_eq_of_lt (Int.natCast_nonneg n) (by exact_mod_cast h))
  rw [twosComplement, hmod, Int.toNat_natCast]

theorem ofNat_word_twosComplement (flags : Int32) :
    Int32.ofNat (word (wordBytes 4 (twosComplement flags))) = flags := by
  rw [word_wordBytes, Nat.mod_eq_of_lt (twosComplement_lt flags), ofNat_twosComplement]

theorem wordBytes_twosComplement_word (h : bs.length = 4) :
    wordBytes 4 (twosComplement (Int32.ofNat (word bs))) = bs := by
  have hlt := word_lt bs
  have hback := wordBytes_word bs
  rw [h] at hlt hback
  rw [twosComplement_ofNat hlt, hback]

/-! ## Fields -/

/-- A field of so many bytes that holds a text: the bytes of the text, and if there is room behind
them, a NUL and any others. -/
inductive Field (max : Nat) (s : String) : List UInt8 → Prop
  | full (h : Utf8.size s.toList = max) : Field max s (Utf8.encode s.toList)
  | ended (stale : List UInt8) (h : Utf8.size s.toList + 1 + stale.length = max) :
    Field max s (Utf8.encode s.toList ++ 0 :: stale)

theorem Field.length_eq (h : Field max s bs) : bs.length = max := by
  cases h with
  | full h => rw [Utf8.length_encode, h]
  | ended stale h =>
    rw [List.length_append, Utf8.length_encode, List.length_cons]
    omega

theorem Field.size_le (h : Field max s bs) : Utf8.size s.toList ≤ max := by
  cases h with
  | full h => exact h.le
  | ended stale h => omega

theorem Field.fieldText_eq (h : Field max s bs) (hnul : '\x00' ∉ s.toList) :
    Event.fieldText bs = s := by
  have hbytes := Utf8.nul_not_mem_encode hnul
  apply Event.fieldText_of_captured
  cases h with
  | full => exact Text.takeWhile_ne_of_not_mem hbytes
  | ended stale => exact Text.takeWhile_ne_append hbytes stale

/-- A field that is UTF-8 up to its first NUL holds the text that is read from it. -/
theorem field_of_decode (hlength : bs.length = max)
    (h : ∃ cs, Utf8.decode (Event.captured bs) = .ok cs) : Field max (Event.fieldText bs) bs := by
  obtain ⟨cs, hcs⟩ := h
  have hcaptured := Utf8.decode_eq_ok_iff.mp hcs
  have htext : (Event.fieldText bs).toList = cs := by
    rw [Event.fieldText_eq, String.toList_ofList, hcaptured, Utf8.decodeLossy_encode]
  have hbytes : Event.captured bs = Utf8.encode (Event.fieldText bs).toList := by
    rw [htext, hcaptured]
  have hsize := congrArg List.length hbytes
  rw [Utf8.length_encode] at hsize
  have hsplit : Event.captured bs ++ bs.dropWhile (· ≠ 0) = bs := List.takeWhile_append_dropWhile
  cases hrest : bs.dropWhile (· ≠ 0) with
  | nil =>
    rw [hrest, List.append_nil] at hsplit
    rw [hsplit] at hbytes hsize
    have hfull := Field.full (s := Event.fieldText bs) (hsize.symm.trans hlength)
    rwa [← hbytes] at hfull
  | cons b stale =>
    obtain rfl : b = 0 := by
      have hhead := List.head?_dropWhile_not (· ≠ (0 : UInt8)) bs
      rw [hrest] at hhead
      simpa using hhead
    rw [hrest] at hsplit
    have hroom : Utf8.size (Event.fieldText bs).toList + 1 + stale.length = max := by
      rw [← hsplit, List.length_append, List.length_cons, hsize] at hlength
      omega
    have hfield := Field.ended stale hroom
    rwa [← hbytes, hsplit] at hfield

/-! ## Slices -/

/-- So many bytes of a buffer from an offset on. -/
def slice (offset n : Nat) (bs : List UInt8) : List UInt8 := (bs.drop offset).take n

theorem length_slice {offset n : Nat} (h : offset + n ≤ bs.length) :
    (slice offset n bs).length = n := by
  rw [slice, List.length_take, List.length_drop]
  omega

theorem slice_append {offset n : Nat} {before part : List UInt8} (hbefore : before.length = offset)
    (hpart : part.length = n) (after : List UInt8) :
    slice offset n (before ++ (part ++ after)) = part := by
  rw [slice, List.drop_left' hbefore, List.take_left' hpart]

/-- A buffer from an offset on is a slice, and the buffer behind it. -/
theorem drop_eq_slice_append (offset n : Nat) (bs : List UInt8) :
    bs.drop offset = slice offset n bs ++ bs.drop (offset + n) := by
  rw [slice, ← List.drop_drop, List.take_append_drop]

/-- A record is read slice by slice. -/
theorem decode_eq (h : 284 ≤ bs.length) : decode bs = .ok
    ⟨UInt32.ofNat (word (slice 0 4 bs)), UInt32.ofNat (word (slice 4 4 bs)),
      Event.fieldText (slice 8 16 bs), Event.fieldText (slice 24 256 bs),
      Int32.ofNat (word (slice 280 4 bs))⟩ := by
  have hlong : ¬ bs.length < size := Nat.not_lt.mpr h
  simp only [decode, if_neg hlong, Event.ofBytes, List.take_take, Nat.min_self]
  rfl

/-- The parts of a record are read one by one, whatever stands behind them. -/
theorem decode_append {pid uid comm path flags : List UInt8} (hpid : pid.length = 4)
    (huid : uid.length = 4) (hcomm : comm.length = 16) (hpath : path.length = 256)
    (hflags : flags.length = 4) (after : List UInt8) :
    decode (pid ++ uid ++ comm ++ path ++ flags ++ after) = .ok
      ⟨UInt32.ofNat (word pid), UInt32.ofNat (word uid), Event.fieldText comm,
        Event.fieldText path, Int32.ofNat (word flags)⟩ := by
  have huidAt : (pid ++ uid).length = 8 := by rw [List.length_append, hpid, huid]
  have hcommAt : (pid ++ uid ++ comm).length = 24 := by rw [List.length_append, huidAt, hcomm]
  have hpathAt : (pid ++ uid ++ comm ++ path).length = 280 := by
    rw [List.length_append, hcommAt, hpath]
  have hlong : 284 ≤ (pid ++ uid ++ comm ++ path ++ flags ++ after).length := by
    rw [List.length_append, List.length_append, hpathAt, hflags]
    exact Nat.le_add_right ..
  rw [decode_eq hlong]
  have h0 := slice_append List.length_nil hpid (uid ++ (comm ++ (path ++ (flags ++ after))))
  have h4 := slice_append hpid huid (comm ++ (path ++ (flags ++ after)))
  have h8 := slice_append huidAt hcomm (path ++ (flags ++ after))
  have h24 := slice_append hcommAt hpath (flags ++ after)
  have h280 := slice_append hpathAt hflags after
  simp only [List.append_assoc, List.nil_append] at h0 h4 h8 h24 h280 ⊢
  rw [h0, h4, h8, h24, h280]

/-! ## Records -/

/-- A buffer that begins with the record of an event: its words and fields one after the other, and
anything behind them. -/
def Layout (e : Event) (bs : List UInt8) : Prop :=
  ∃ comm path after, Field Event.commBytes e.comm comm ∧ Field Event.pathBytes e.path path ∧
    bs = wordBytes 4 e.pid.toNat ++ wordBytes 4 e.uid.toNat ++ comm ++ path ++
      wordBytes 4 (twosComplement e.flags) ++ after

/-- The record of an event is read as the event. -/
theorem Layout.decode_eq (h : Layout e bs) (hin : e.InBounds) : decode bs = .ok e := by
  obtain ⟨comm, path, after, hcomm, hpath, rfl⟩ := h
  rw [decode_append (length_wordBytes ..) (length_wordBytes ..) hcomm.length_eq hpath.length_eq
    (length_wordBytes ..), ofNat_word_wordBytes, ofNat_word_wordBytes,
    hcomm.fieldText_eq hin.comm_noNul, hpath.fieldText_eq hin.path_noNul,
    ofNat_word_twosComplement]

theorem length_of_decode (h : decode bs = .ok e) : 284 ≤ bs.length := by
  by_contra hshort
  rw [decode_eq_error_iff.mpr ⟨Nat.not_le.mp hshort, rfl⟩] at h
  cases h

/-- A record whose fields are UTF-8 up to their first NULs is that of the event that is read. -/
theorem layout_of_decode (h : decode bs = .ok e)
    (hcomm : ∃ cs, Utf8.decode (Event.captured (slice 8 16 bs)) = .ok cs)
    (hpath : ∃ cs, Utf8.decode (Event.captured (slice 24 256 bs)) = .ok cs) : Layout e bs := by
  have hlong := length_of_decode h
  rw [Record.decode_eq hlong] at h
  cases h
  refine ⟨slice 8 16 bs, slice 24 256 bs, bs.drop 284,
    field_of_decode (length_slice (by omega)) hcomm,
    field_of_decode (length_slice (by omega)) hpath, ?_⟩
  rw [wordBytes_ofNat_word (length_slice (by omega)), wordBytes_ofNat_word (length_slice (by omega)),
    wordBytes_twosComplement_word (length_slice (by omega))]
  simp only [List.append_assoc]
  rw [← drop_eq_slice_append 280 4, ← drop_eq_slice_append 24 256, ← drop_eq_slice_append 8 16,
    ← drop_eq_slice_append 4 4, ← drop_eq_slice_append 0 4, List.drop_zero]

theorem Layout.inBounds (h : Layout e bs) (hread : decode bs = .ok e) : e.InBounds := by
  obtain ⟨comm, path, after, hcomm, hpath, -⟩ := h
  obtain ⟨hcommText, hpathText⟩ := texts_of_decode hread
  exact ⟨hcommText ▸ Event.nul_not_mem_fieldText _, hcomm.size_le,
    hpathText ▸ Event.nul_not_mem_fieldText _, hpath.size_le⟩

/-- Two buffers agree on the words of a record, and on its fields up to their first NULs. -/
structure Agree (bs cs : List UInt8) : Prop where
  pid : slice 0 4 bs = slice 0 4 cs
  uid : slice 4 4 bs = slice 4 4 cs
  comm : Event.throughNul (slice 8 16 bs) = Event.throughNul (slice 8 16 cs)
  path : Event.throughNul (slice 24 256 bs) = Event.throughNul (slice 24 256 cs)
  flags : slice 280 4 bs = slice 280 4 cs

theorem Agree.decode_eq (h : Agree bs cs) (hbs : 284 ≤ bs.length) (hcs : 284 ≤ cs.length) :
    decode bs = decode cs := by
  rw [Record.decode_eq hbs, Record.decode_eq hcs, h.pid, h.uid, Event.fieldText_congr h.comm,
    Event.fieldText_congr h.path, h.flags]

/-- **Decoding undoes the layout of records.** The record of an event within the bounds is read as
this event and no other, whatever stands behind the NULs of its fields and behind the record. A
buffer is too short exactly if it has fewer than 284 bytes. -/
theorem decode_undoes_layout :
    (∀ (e : Event) (bs : List UInt8), e.InBounds → Layout e bs → decode bs = .ok e) ∧
    (∀ (e : Event) (bs : List UInt8), decode bs = .ok e →
      (∃ cs, Utf8.decode (Event.captured (slice 8 16 bs)) = .ok cs) →
      (∃ cs, Utf8.decode (Event.captured (slice 24 256 bs)) = .ok cs) →
      e.InBounds ∧ Layout e bs) ∧
    (∀ (bs : List UInt8) (err : TooShort),
      decode bs = .error err ↔ bs.length < 284 ∧ err = ⟨bs.length⟩) ∧
    ∀ bs cs : List UInt8, 284 ≤ bs.length → 284 ≤ cs.length → Agree bs cs →
      ∃ e, decode bs = .ok e ∧ decode cs = .ok e := by
  refine ⟨fun e bs hin h => h.decode_eq hin, fun e bs h hcomm hpath => ?_,
    fun bs err => decode_eq_error_iff, fun bs cs hbs hcs h => ?_⟩
  · have hlayout := layout_of_decode h hcomm hpath
    exact ⟨hlayout.inBounds h, hlayout⟩
  · exact ⟨_, Record.decode_eq hbs, (h.decode_eq hbs hcs).symm.trans (Record.decode_eq hbs)⟩

/-- A command name that fills its field, a path with stale bytes behind its NUL, negative flags, and
bytes behind the record. With other stale bytes the record is read alike. -/
theorem stale_bytes_do_not_count :
    let e : Event := ⟨7, 4294967295, "0123456789abcd\u00e9", "/tmp/a", -2⟩
    let record (stale after : List UInt8) := [7, 0, 0, 0] ++ [0xFF, 0xFF, 0xFF, 0xFF] ++
      Utf8.encode e.comm.toList ++ (Utf8.encode e.path.toList ++ 0 :: stale) ++
      [0xFE, 0xFF, 0xFF, 0xFF] ++ after
    let bs := record (Utf8.encode "/shadow".toList ++ List.replicate 242 0) [0xAA, 0xAA]
    let cs := record (List.replicate 249 0xFF) []
    e.InBounds ∧ Layout e bs ∧ Agree bs cs ∧ decode bs = .ok e ∧ decode cs = .ok e := by
  intro e record bs cs
  have hin : e.InBounds := by decide +kernel
  have hsize : Utf8.size e.path.toList = 6 := by decide +kernel
  have hpid : wordBytes 4 e.pid.toNat = [7, 0, 0, 0] := by decide +kernel
  have huid : wordBytes 4 e.uid.toNat = [0xFF, 0xFF, 0xFF, 0xFF] := by decide +kernel
  have hflags : wordBytes 4 (twosComplement e.flags) = [0xFE, 0xFF, 0xFF, 0xFF] := by
    decide +kernel
  have hlayout (stale after : List UInt8) (h : stale.length = 249) :
      Layout e (record stale after) :=
    ⟨_, _, after, .full (by decide +kernel), .ended stale (by rw [hsize, h]; rfl),
      by rw [hpid, huid, hflags]⟩
  have hagree : Agree bs cs :=
    ⟨by decide +kernel, by decide +kernel, by decide +kernel, by decide +kernel, by decide +kernel⟩
  obtain ⟨hread, -, -, hcongr⟩ := decode_undoes_layout
  have hbs := hread e bs hin (hlayout _ _ (by decide +kernel))
  obtain ⟨e', hbs', hcs⟩ := hcongr bs cs (by decide +kernel) (by decide +kernel) hagree
  obtain rfl : e = e' := Except.ok.inj (hbs.symm.trans hbs')
  exact ⟨hin, hlayout _ _ (by decide +kernel), hagree, hbs, hcs⟩

end Record
end FileWarden
