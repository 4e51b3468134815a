import FileWarden.Event.Record
import FileWarden.Policy
import FileWarden.Proofs.Event.Recording
import FileWarden.Proofs.Text.Boundary
import FileWarden.Proofs.Text.Lossy
import Mathlib.Data.List.TakeWhile

/-!
# The bounds of captured events

- **Cutting** (`Event.cut_eq_iff`): an event whose texts are cut comes back as it was if it is
  within the bounds, and only then.
- **Fields** (`Event.size_fieldText`): the text of a field is longer than its bytes if these hold
  faults.
- **Records** (`Record.bounds_iff`): which records give events within the bounds. In others, the
  bytes that are not UTF-8 push the end of a text out of them.
-/

namespace FileWarden

namespace Event

/-! ## Cutting -/

theorem nul_not_mem_bounded (max : Nat) (s : String) : '\x00' ∉ (bounded max s).toList := by
  rw [bounded, String.toList_ofList]
  intro h
  simpa using List.mem_takeWhile_imp ((Utf8.keep_isPrefix ..).subset h)

theorem size_bounded_le (max : Nat) (s : String) : Utf8.size (bounded max s).toList ≤ max := by
  rw [bounded, String.toList_ofList]
  exact Utf8.size_keep_le ..

theorem inBounds_cut (e : Event) : e.cut.InBounds where
  comm_noNul := nul_not_mem_bounded _ _
  comm_size := size_bounded_le ..
  path_noNul := nul_not_mem_bounded _ _
  path_size := size_bounded_le ..

/-- Cutting its texts gives an event back if it is within the bounds, and only then. -/
theorem cut_eq_iff {e : Event} : e.cut = e ↔ e.InBounds :=
  ⟨fun h => h ▸ e.inBounds_cut, InBounds.cut_eq⟩

theorem ofRecording_singleton_iff {e : Event} :
    ofRecording (recordingText [e]) = .ok [e] ↔ e.InBounds := by
  rw [ofRecording_recordingText, ← cut_eq_iff]
  simp

/-! ## Fields -/

/-- The bytes of a field up to the first NUL. -/
def captured (bs : List UInt8) : List UInt8 := bs.takeWhile (· ≠ 0)

theorem size_fieldText (bs : List UInt8) :
    Utf8.size (fieldText bs).toList = (captured bs).length + Utf8.growth (captured bs) := by
  rw [fieldText, String.toList_ofList]
  exact Utf8.size_decodeLossy (captured bs)

theorem nul_not_mem_fieldText (bs : List UInt8) : '\x00' ∉ (fieldText bs).toList := by
  rw [fieldText, String.toList_ofList]
  apply Utf8.nul_not_mem_decodeLossy
  intro h
  simpa using List.mem_takeWhile_imp h

theorem length_captured_take_le (max : Nat) (bs : List UInt8) :
    (captured (bs.take max)).length ≤ max :=
  Nat.le_trans (List.takeWhile_sublist _).length_le (List.length_take_le max bs)

theorem size_fieldText_take_le (max : Nat) (bs : List UInt8) :
    Utf8.size (fieldText (bs.take max)).toList ≤ 3 * max := by
  have hlength := length_captured_take_le max bs
  have hgrowth := Utf8.growth_le (captured (bs.take max))
  rw [size_fieldText]
  omega

end Event

namespace Record

/-- The bytes of the command name in a record. -/
def comm (bs : List UInt8) : List UInt8 := (bs.drop 8).take Event.commBytes

/-- The bytes of the path in a record. -/
def path (bs : List UInt8) : List UInt8 := (bs.drop 24).take Event.pathBytes

theorem texts_of_decode {bs : List UInt8} {e : Event} (h : decode bs = .ok e) :
    e.comm = Event.fieldText (comm bs) ∧ e.path = Event.fieldText (path bs) := by
  unfold decode at h
  split at h
  · cases h
  · cases h
    simp [Event.ofBytes, comm, path, List.take_take]

/-- **Which records give events within the bounds.** Each text takes the bytes of its field up to
the first NUL, two more for a fault of one byte and one more for a fault of two. The event is within
the bounds exactly if this fits, and only then it is read back from a recording unchanged. -/
theorem bounds_iff (bs : List UInt8) (e : Event) (h : decode bs = .ok e) :
    let name := Event.captured (comm bs)
    let file := Event.captured (path bs)
    ('\x00' ∉ e.comm.toList ∧ '\x00' ∉ e.path.toList) ∧
    (Utf8.size e.comm.toList = name.length + Utf8.growth name ∧
      Utf8.size e.path.toList = file.length + Utf8.growth file) ∧
    (Utf8.size e.comm.toList ≤ 3 * Event.commBytes ∧
      Utf8.size e.path.toList ≤ 3 * Event.pathBytes) ∧
    (e.InBounds ↔ name.length + Utf8.growth name ≤ Event.commBytes ∧
      file.length + Utf8.growth file ≤ Event.pathBytes) ∧
    ((∃ cs, Utf8.decode name = .ok cs) → (∃ cs, Utf8.decode file = .ok cs) → e.InBounds) ∧
    (e.cut = e ↔ e.InBounds) ∧
    (Event.ofRecording (Event.recordingText [e]) = .ok [e] ↔ e.InBounds) := by
  intro name file
  obtain ⟨hcomm, hpath⟩ := texts_of_decode h
  have hnul : '\x00' ∉ e.comm.toList ∧ '\x00' ∉ e.path.toList := by
    rw [hcomm, hpath]
    exact ⟨Event.nul_not_mem_fieldText _, Event.nul_not_mem_fieldText _⟩
  have hsizes : Utf8.size e.comm.toList = name.length + Utf8.growth name ∧
      Utf8.size e.path.toList = file.length + Utf8.growth file := by
    rw [hcomm, hpath]
    exact ⟨Event.size_fieldText _, Event.size_fieldText _⟩
  have hbounds : e.InBounds ↔ name.length + Utf8.growth name ≤ Event.commBytes ∧
      file.length + Utf8.growth file ≤ Event.pathBytes := by
    rw [← hsizes.1, ← hsizes.2]
    exact ⟨fun h => ⟨h.comm_size, h.path_size⟩, fun ⟨hc, hp⟩ => ⟨hnul.1, hc, hnul.2, hp⟩⟩
  refine ⟨hnul, hsizes, ?_, hbounds, ?_, Event.cut_eq_iff, Event.ofRecording_singleton_iff⟩
  · rw [hcomm, hpath]
    exact ⟨Event.size_fieldText_take_le .., Event.size_fieldText_take_le ..⟩
  · rintro ⟨_, hname⟩ ⟨_, hfile⟩
    rw [hbounds, Utf8.growth_of_decode hname, Utf8.growth_of_decode hfile]
    exact ⟨Event.length_captured_take_le .., Event.length_captured_take_le ..⟩

/-- A fault of one byte in a path that is short enough for it. -/
theorem short_path_fits :
    let padded (n : Nat) (bs : List UInt8) := bs ++ List.replicate (n - bs.length) 0
    let bs := padded 8 [7] ++ padded 16 (Utf8.encode "cat".toList) ++
      padded 260 (Utf8.encode "/tmp/".toList ++ [0xFF])
    let e : Event := ⟨7, 0, "cat", "/tmp/\uFFFD", 0⟩
    decode bs = .ok e ∧ Utf8.size e.path.toList = 8 ∧ e.InBounds ∧ e.cut = e := by
  intro padded bs e
  have he : decode bs = .ok e := by decide +kernel
  obtain ⟨-, ⟨-, hpath⟩, -, hbounds, -, hcut, -⟩ := bounds_iff bs e he
  have hin : e.InBounds := hbounds.mpr (by decide +kernel)
  exact ⟨he, hpath.trans (by decide +kernel), hin, hcut.mpr hin⟩

/-- A record of which both texts outgrow their bounds. The end of the path, for which the live event
is disallowed, is missing in the event that is read back from a recording of it. -/
theorem forbidden_path_is_cut :
    let padded (n : Nat) (bs : List UInt8) := bs ++ List.replicate (n - bs.length) 0
    let bs := padded 8 [7] ++ padded 16 (List.replicate 6 0xFF) ++
      padded 260 (Utf8.encode "/tmp/".toList ++ List.replicate 90 0xFF ++
        Utf8.encode "/shadow".toList)
    let faults (n : Nat) := List.replicate n '\uFFFD'
    let e : Event := ⟨7, 0, String.ofList (faults 6),
      String.ofList ("/tmp/".toList ++ faults 90 ++ "/shadow".toList), 0⟩
    let policy := Policy.ofTexts ["shadow"]
    decode bs = .ok e ∧ Utf8.size e.comm.toList = 18 ∧ Utf8.size e.path.toList = 282 ∧
      e.cut ≠ e ∧ policy.disallows e.path = true ∧ policy.disallows e.cut.path = false := by
  intro padded bs faults e policy
  have he : decode bs = .ok e := by decide +kernel
  have hlive : policy.disallows e.path = true := by
    simp only [policy, e, Policy.disallows, Policy.ofTexts, Pattern.matchesPath, Pattern.covers,
      String.toList_ofList]
    decide +kernel
  have hreplayed : policy.disallows e.cut.path = false := by
    simp only [policy, e, Policy.disallows, Policy.ofTexts, Pattern.matchesPath, Pattern.covers,
      Event.cut, Event.make, Event.bounded, String.toList_ofList]
    decide +kernel
  have hname : Utf8.size e.comm.toList = 18 := by
    simp only [e, String.toList_ofList]
    decide +kernel
  have hfile : Utf8.size e.path.toList = 282 := by
    simp only [e, String.toList_ofList]
    decide +kernel
  have hcut : e.cut ≠ e := fun h => Bool.false_ne_true (by rw [← hreplayed, h, hlive])
  exact ⟨he, hname, hfile, hcut, hlive, hreplayed⟩

end Record
end FileWarden
