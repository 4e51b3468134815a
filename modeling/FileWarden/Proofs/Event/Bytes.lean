import FileWarden.Event
import FileWarden.Proofs.Text.Straddled

/-!
# Events from the bytes of texts

An event can be made from texts, or from their bytes. The text is cut at its first NUL and then to
the characters that fit; the bytes are cut to the size of the field and then at the first NUL.

- **Fields** (`fieldText_take_encode`): a field of bytes has the cut text, and one `U+FFFD` behind it
  if a character straddles the end of the field.
- **Events** (`ofBytes_encode`): so the two events differ in no other way.
-/

namespace FileWarden
namespace Event

/-! ## Fields -/

/-- The characters of a text up to the first NUL. -/
def untilNul (s : String) : List Char := s.toList.takeWhile (· ≠ '\x00')

/-- The text of a field with the mark of a character that was cut. -/
def marked (max : Nat) (s : String) : String :=
  if Utf8.Straddled max (untilNul s) then bounded max s ++ "\uFFFD" else bounded max s

/-- The size of the field and the NUL cut the bytes of a text, in either order. -/
theorem takeWhile_take_encode (max : Nat) (s : String) :
    ((Utf8.encode s.toList).take max).takeWhile (· ≠ 0) = (Utf8.encode (untilNul s)).take max := by
  rw [← List.take_takeWhile, Utf8.takeWhile_encode, untilNul]

theorem fieldText_take_encode (max : Nat) (s : String) :
    fieldText ((Utf8.encode s.toList).take max) = marked max s := by
  rw [fieldText, takeWhile_take_encode, Utf8.decodeLossy_take_encode, marked, bounded, untilNul]
  split
  · rw [String.ofList_append]
  · rw [List.append_nil]

/-- The field ends behind the first byte of the last character. -/
example : fieldText ((Utf8.encode "fifteen letters\u00e9".toList).take commBytes) =
    "fifteen letters\uFFFD" := by decide +kernel

theorem marked_eq_bounded_iff {max : Nat} {s : String} :
    marked max s = bounded max s ↔ ¬ Utf8.Straddled max (untilNul s) := by
  rw [marked]
  split
  · rename_i h
    refine iff_of_false (fun heq => ?_) (not_not_intro h)
    have hlength := congrArg String.length heq
    simp at hlength
  · rename_i h
    exact iff_of_true rfl h

/-! ## Events -/

/-- **Bytes against texts.** An event made from the bytes of two texts is the one made from the texts,
but that a text has one `U+FFFD` more if a character straddles the end of its field. So they are equal
if there is no such character, and only then. With such a character, the text up to its first NUL is
longer than the field, and has a character of two bytes or more. -/
theorem ofBytes_encode (pid : Pid) (uid : UInt32) (comm path : String) (flags : Int32) :
    let made := make pid uid comm path flags
    let raw := ofBytes pid uid (Utf8.encode comm.toList) (Utf8.encode path.toList) flags
    let commCut := Utf8.Straddled commBytes (untilNul comm)
    let pathCut := Utf8.Straddled pathBytes (untilNul path)
    raw = { made with
      comm := if commCut then made.comm ++ "\uFFFD" else made.comm
      path := if pathCut then made.path ++ "\uFFFD" else made.path } ∧
    (raw = made ↔ ¬ commCut ∧ ¬ pathCut) ∧
    (commCut → commBytes < Utf8.size (untilNul comm) ∧ ∃ c ∈ untilNul comm, 1 < Utf8.width c) ∧
    (pathCut → pathBytes < Utf8.size (untilNul path) ∧ ∃ c ∈ untilNul path, 1 < Utf8.width c) := by
  intro made raw commCut pathCut
  have hraw : raw = ⟨pid, uid, marked commBytes comm, marked pathBytes path, flags⟩ := by
    simp only [raw, ofBytes, fieldText_take_encode]
  refine ⟨hraw, ?_, fun h => ⟨h.lt_size, h.exists_wide⟩, fun h => ⟨h.lt_size, h.exists_wide⟩⟩
  rw [hraw]
  simp only [made, make, mk.injEq, true_and, and_true, marked_eq_bounded_iff, commCut, pathCut]

end Event
end FileWarden
