import FileWarden.Files
import FileWarden.Instant
import FileWarden.Journal.Entry
import FileWarden.Log

/-!
# The journal

A journal is a file with a line for each notice.

* `Journal.write` adds the line of a notice to the file.
* `Journal.deliver` passes a transcript on: its log lines go to the log and, if there is a journal,
  its notices go there as well. A notice that cannot be written leads to a warning right after its
  own line, and nothing else changes.
* `Journal.emit` passes on a single entry: the log together with a journal is a sink.
-/

namespace FileWarden

/-- Where notices are kept, and the time that they are stamped with. -/
structure Journal where
  path : String
  time : Instant
  deriving DecidableEq, Repr

namespace Journal

/-- A notice could not be added to the file of a journal. -/
structure WriteError where
  cause : FileError
  deriving DecidableEq, Repr

/-- The words for a notice that could not be added. -/
def WriteError.message (e : WriteError) : String :=
  "failed to append to journal: " ++ e.cause.message

/-- The entry of a notice. -/
def entry (j : Journal) (n : Notice) : JournalEntry := ⟨j.time.timestamp, n⟩

/-- The bytes of the line of a notice. -/
def bytes (j : Journal) (n : Notice) : List UInt8 := Utf8.encode (j.entry n).line.toList

/-- Adds a notice to the file of a journal. -/
def write {φ : Type} [FileStore φ] (j : Journal) (files : φ) (n : Notice) :
    Except WriteError Unit × φ :=
  match FileStore.append files j.path (j.bytes n) with
  | (.ok (), files) => (.ok (), files)
  | (.error cause, files) => (.error ⟨cause⟩, files)

/-- The line about a notice that could not be added. -/
def warning (j : Journal) (e : WriteError) : LogLine :=
  .warning ("journal " ++ j.path ++ ": " ++ e.message)

/-- Keeps a notice, as far as that succeeds, and gives the warnings about it. -/
def keep {φ : Type} [FileStore φ] (j : Journal) (files : φ) (n : Notice) : List LogLine × φ :=
  match j.write files n with
  | (.ok (), files) => ([], files)
  | (.error e, files) => ([j.warning e], files)

/-- Keeps what an entry of a transcript reports. -/
def keepEntry {φ : Type} [FileStore φ] (journal : Option Journal) (files : φ) (e : Entry) :
    List LogLine × φ :=
  match journal, e with
  | some j, .notice n => j.keep files n
  | _, _ => ([], files)

/-- Passes a transcript on to the log and to the journal, if there is one. -/
def deliver {φ : Type} [FileStore φ] (journal : Option Journal) (files : φ) :
    Transcript → List LogLine × φ
  | [] => ([], files)
  | e :: t =>
    let (warnings, files) := keepEntry journal files e
    let (lines, files) := deliver journal files t
    (e.logLine :: warnings ++ lines, files)

/-- Adds an entry to a log, and then its notice to the journal, if there is one. -/
def emit {φ : Type} [FileStore φ] (journal : Option Journal) (k : List LogLine × φ) (e : Entry) :
    List LogLine × φ :=
  let (warnings, files) := keepEntry journal k.2 e
  (k.1 ++ e.logLine :: warnings, files)

@[simp] theorem deliver_none {φ : Type} [FileStore φ] (files : φ) (t : Transcript) :
    deliver none files t = (t.log, files) := by
  induction t with
  | nil => rfl
  | cons e t ih => simp [deliver, keepEntry, ih, Transcript.log]

end Journal
end FileWarden
