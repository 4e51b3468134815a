import FileWarden.Text.Utf8

/-!
# Events

An event is one opening of a file by a process.

* `Event.make` builds an event from texts, each cut to the bounds of its field (`bounded`).
* `Event.ofBytes` builds an event from the bytes of its fields, as captured.
-/

namespace FileWarden

/-- The identifier of a process. -/
abbrev Pid := UInt32

/-- One opening of a file: the process, its user and its command name, the path and the flags. -/
structure Event where
  pid : Pid
  uid : UInt32
  comm : String
  path : String
  flags : Int32
  deriving DecidableEq, Repr

namespace Event

/-- A command name has at most 16 bytes. -/
def commBytes : Nat := 16

/-- A path has at most 256 bytes. -/
def pathBytes : Nat := 256

/-- The longest beginning of a text that holds no NUL and takes at most `max` bytes. -/
def bounded (max : Nat) (s : String) : String :=
  String.ofList (Utf8.keep max (s.toList.takeWhile (· ≠ '\x00')))

/-- The text of a field of bytes: it ends before the first NUL, and what is not UTF-8 reads as
`U+FFFD`. -/
def fieldText (bs : List UInt8) : String :=
  String.ofList (Utf8.decodeLossy (bs.takeWhile (· ≠ 0)))

/-- An event from texts, which are cut to the bounds. -/
def make (pid : Pid) (uid : UInt32) (comm path : String) (flags : Int32) : Event :=
  ⟨pid, uid, bounded commBytes comm, bounded pathBytes path, flags⟩

/-- An event with its texts cut to the bounds. -/
def cut (e : Event) : Event := make e.pid e.uid e.comm e.path e.flags

/-- An event from the bytes of its fields; bytes past a field's size do not count. -/
def ofBytes (pid : Pid) (uid : UInt32) (comm path : List UInt8) (flags : Int32) : Event :=
  ⟨pid, uid, fieldText (comm.take commBytes), fieldText (path.take pathBytes), flags⟩

end Event
end FileWarden
