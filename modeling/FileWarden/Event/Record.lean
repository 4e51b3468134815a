import FileWarden.Event

/-!
# Capture records

The fixed layout in which an event is captured: `pid` and `uid`, 4 bytes each, then 16 bytes of
command name, 256 bytes of path and 4 bytes of flags. Words are little endian, texts end at a NUL.

* `Record.decode` reads a record; bytes after it do not count.
* `Record.word` is the number that some bytes stand for.
-/

namespace FileWarden
namespace Record

/-- The bytes of a record. -/
def size : Nat := 284

/-- A buffer holds fewer bytes than a record has. -/
structure TooShort where
  actual : Nat
  deriving DecidableEq, Repr

/-- Names the bytes that are needed and those that are there. -/
def TooShort.message (e : TooShort) : String :=
  "record too short: expected " ++ toString size ++ " bytes, got " ++ toString e.actual

/-- The number that bytes stand for, the lowest first. -/
def word : List UInt8 → Nat
  | [] => 0
  | b :: bs => b.toNat + 256 * word bs

/-- The event in a buffer. -/
def decode (bs : List UInt8) : Except TooShort Event :=
  if bs.length < size then .error ⟨bs.length⟩
  else .ok (Event.ofBytes
    (UInt32.ofNat (word (bs.take 4)))
    (UInt32.ofNat (word ((bs.drop 4).take 4)))
    ((bs.drop 8).take Event.commBytes)
    ((bs.drop 24).take Event.pathBytes)
    (Int32.ofNat (word ((bs.drop 280).take 4))))

theorem decode_eq_error_iff {bs : List UInt8} {e : TooShort} :
    decode bs = .error e ↔ bs.length < size ∧ e = ⟨bs.length⟩ := by
  unfold decode
  split <;> rename_i h
  · simp [h, eq_comm]
  · simp [h]

end Record
end FileWarden
