import FileWarden.Proofs.Event.Bytes
import FileWarden.Proofs.Event.Capture

/-!
# The bounds of texts

A text is bounded to what stands before its first NUL, and to as many characters as fit.

- **Beginnings** (`Fits`, `fits_bounded`, `Fits.isPrefix_bounded`): it fits, and no longer beginning
  does.
- **Bytes** (`isGreatest_bounded`): among the bytes, it ends at the greatest boundary up to the bound
  and up to the first NUL.
- **Searching** (`boundedBytes?_encode`): the bytes are those that a search down from the bound finds.
-/

namespace FileWarden
namespace Event

variable {max : Nat} {s : String} {before : List Char}

/-! ## Beginnings -/

/-- A beginning of `s` that holds no NUL and takes at most `max` bytes. -/
structure Fits (max : Nat) (s : String) (before : List Char) : Prop where
  begins : before <+: s.toList
  no_nul : '\x00' ∉ before
  size_le : Utf8.size before ≤ max

theorem toList_bounded (max : Nat) (s : String) :
    (bounded max s).toList = Utf8.keep max (untilNul s) := by
  rw [bounded, String.toList_ofList, untilNul]

theorem fits_bounded (max : Nat) (s : String) : Fits max s (bounded max s).toList where
  begins := by
    rw [toList_bounded]
    exact (Utf8.keep_isPrefix ..).trans (List.takeWhile_prefix _)
  no_nul := nul_not_mem_bounded max s
  size_le := size_bounded_le max s

theorem isPrefix_untilNul (h : before <+: s.toList) (hnul : '\x00' ∉ before) :
    before <+: untilNul s := by
  obtain ⟨rest, hrest⟩ := h
  rw [untilNul, ← hrest, List.takeWhile_append_of_pos (Text.forall_ne_of_not_mem hnul)]
  exact List.prefix_append ..

theorem Fits.isPrefix_bounded (h : Fits max s before) : before <+: (bounded max s).toList := by
  rw [toList_bounded]
  exact Utf8.isPrefix_keep (isPrefix_untilNul h.begins h.no_nul) h.size_le

/-- A bounded text is within its bound, so bounding it again changes nothing. -/
theorem bounded_bounded (max : Nat) (s : String) : bounded max (bounded max s) = bounded max s :=
  bounded_of_fits (nul_not_mem_bounded max s) (size_bounded_le max s)

/-! ## Bytes -/

theorem zero_mem_encode_iff {cs : List Char} : 0 ∈ Utf8.encode cs ↔ '\x00' ∈ cs := by
  refine ⟨fun h => Decidable.byContradiction fun hnul => Utf8.nul_not_mem_encode hnul h, fun h => ?_⟩
  exact List.mem_flatMap.mpr ⟨_, h, by decide⟩

theorem isGreatest_bounded (max : Nat) (s : String) :
    IsGreatest {n | n ≤ max ∧ Utf8.isBoundary (Utf8.encode s.toList) n = true ∧
      0 ∉ (Utf8.encode s.toList).take n} (Utf8.size (bounded max s).toList) := by
  have hfits := fits_bounded max s
  constructor
  · refine ⟨hfits.size_le, Utf8.isBoundary_iff.mpr ⟨_, hfits.begins, rfl⟩, ?_⟩
    rw [Utf8.take_encode_of_isPrefix hfits.begins]
    exact Utf8.nul_not_mem_encode hfits.no_nul
  · rintro n ⟨hn, hboundary, hnul⟩
    obtain ⟨before, hbefore, rfl⟩ := Utf8.isBoundary_iff.mp hboundary
    rw [Utf8.take_encode_of_isPrefix hbefore, zero_mem_encode_iff] at hnul
    exact Utf8.size_le_of_isPrefix (Fits.isPrefix_bounded ⟨hbefore, hnul, hn⟩)

/-! ## Searching -/

/-- The bytes before the first NUL, up to the bound. If they go beyond it, a boundary is searched
downwards; nothing, if the search leads below 0. -/
def boundedBytes? (max : Nat) (bs : List UInt8) : Option (List UInt8) :=
  let bs := captured bs
  if bs.length ≤ max then some bs else (Utf8.boundaryAtMost? bs max).map bs.take

theorem captured_encode (s : String) :
    captured (Utf8.encode s.toList) = Utf8.encode (untilNul s) :=
  Utf8.takeWhile_encode s.toList

theorem boundaryAtMost?_captured (max : Nat) (s : String) :
    Utf8.boundaryAtMost? (captured (Utf8.encode s.toList)) max =
      some (Utf8.size (bounded max s).toList) := by
  rw [captured_encode, Utf8.boundaryAtMost?_encode, toList_bounded]

theorem boundedBytes?_encode (max : Nat) (s : String) :
    boundedBytes? max (Utf8.encode s.toList) = some (Utf8.encode (bounded max s).toList) := by
  rw [boundedBytes?, boundaryAtMost?_captured, captured_encode, Utf8.length_encode, toList_bounded]
  split
  · rename_i hfits
    rw [Utf8.keep_of_size_le hfits]
  · rw [Option.map_some, Utf8.take_encode_of_isPrefix (Utf8.keep_isPrefix max _)]

/-- **What a bounded text is.** It is the longest beginning that holds no NUL and takes no more
bytes than the bound, so bounding it again changes nothing. Among the bytes it ends at the greatest
boundary of characters with no NUL before it, which a search down from the bound always finds. -/
theorem bounded_is_longest (max : Nat) (s : String) :
    Fits max s (bounded max s).toList ∧
    (∀ before, Fits max s before → before <+: (bounded max s).toList) ∧
    bounded max (bounded max s) = bounded max s ∧
    (∀ pid uid comm path flags,
      let made := make pid uid comm path flags
      make made.pid made.uid made.comm made.path made.flags = made) ∧
    let bs := Utf8.encode s.toList
    let size := Utf8.size (bounded max s).toList
    Utf8.encode (bounded max s).toList = bs.take size ∧
    IsGreatest {n | n ≤ max ∧ Utf8.isBoundary bs n = true ∧ 0 ∉ bs.take n} size ∧
    Utf8.boundaryAtMost? (captured bs) max = some size ∧
    boundedBytes? max bs = some (bs.take size) := by
  have htake := Utf8.take_encode_of_isPrefix (fits_bounded max s).begins
  refine ⟨fits_bounded max s, fun before => Fits.isPrefix_bounded, bounded_bounded max s,
    fun pid uid comm path flags => ?_, htake.symm, isGreatest_bounded max s,
    boundaryAtMost?_captured max s, ?_⟩
  · simp only [make, bounded_bounded]
  · rw [htake, boundedBytes?_encode]

end Event
end FileWarden
