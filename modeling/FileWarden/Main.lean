import FileWarden.Files.Disk
import FileWarden.Program
import Std.Time.DateTime.Timestamp

/-!
# The command

Reads the files that an invocation names, runs its session and passes the transcript on: log lines
go to the standard error, notices also to the journal.
-/

namespace FileWarden
namespace Main

/-! ## Files -/

/-- The number of a failure; the system also reports it negated. -/
def errorNumber (code : UInt32) : UInt32 := min code (-code)

/-- A failure of the system as a failed file operation. -/
def fileError : IO.Error → FileError
  | .noFileOrDirectory .. => Disk.Failure.missing.error
  | .alreadyExists .. => Disk.Failure.exists.error
  | .inappropriateType _ code _ =>
    (if errorNumber code = 21 then Disk.Failure.isADirectory else .notADirectory).error
  | .invalidArgument _ code _ =>
    (if errorNumber code = 36 then Disk.Failure.nameTooLong else .nulInName).error
  | .permissionDenied .. => .io .permissionDenied "Permission denied (os error 13)"
  | e => .io .other (toString e)

/-- Runs a file operation. -/
def attempt {α : Type} (act : IO α) : IO (Except FileError α) := do
  try return .ok (← act) catch e => return .error (fileError e)

/-- Reads the text of a file. -/
def readText (path : String) : IO (Except FileError String) := do
  match ← attempt (IO.FS.readBinFile path) with
  | .error e => return .error e
  | .ok bytes => match Utf8.decode bytes.toList with
    | .ok cs => return .ok (String.ofList cs)
    | .error _ => return .error Disk.notText

/-- The path of the directory that a path leads into; it is empty if none is named. -/
def directory (path : String) : String :=
  match (Disk.above (Disk.Route.ofPath path).parts).getLast? with
  | some part => String.ofList (Utf8.keep part.reach path.toList)
  | none => ""

/-- Adds bytes to the end of a file; the directories above it are made first. -/
def appendBytes (path : String) (bytes : List UInt8) : IO (Except FileError Unit) :=
  attempt do
    unless (directory path).isEmpty do IO.FS.createDirAll (directory path)
    IO.FS.withFile path .append fun file => file.write ⟨bytes.toArray⟩

/-- The files that a request reads. -/
def inputs (r : Request) : List String :=
  r.options.patternsFile.toList ++ match r with
    | .watch _ => []
    | .replay events _ => [events]

/-! ## Running -/

/-- The present time. -/
def now : IO Instant := do
  let t ← Std.Time.Timestamp.now
  return ⟨t.toSecondsSinceUnixEpoch.val, 0⟩

/-- Shows log lines to a reader. -/
def display (reader : Level) (lines : List LogLine) : IO Unit := do
  IO.eprint (logText reader lines)

/-- Adds a notice to the journal. -/
def keep (path : String) (n : Notice) : IO (List LogLine) := do
  let journal : Journal := ⟨path, ← now⟩
  match ← appendBytes path (journal.bytes n) with
  | .ok () => return []
  | .error cause => return [journal.warning ⟨cause⟩]

/-- Passes an entry of a transcript on. -/
def deliver (reader : Level) (journal : Option String) (e : Entry) : IO Unit := do
  display reader [e.logLine]
  match journal, e with
  | some path, .notice n => display reader (← keep path n)
  | _, _ => return

/-- Runs an invocation, and gives its exit code. -/
def run (i : Invocation) : IO UInt8 := do
  let texts ← (inputs i.request).mapM fun path => return (path, ← readText path)
  let read (path : String) := (texts.lookup path).getD (.error (.path path))
  match i.session read .fresh with
  | .error e =>
    IO.eprint (Report.errorText e)
    return e.exitCode
  | .ok s =>
    s.transcript.forM (deliver (.ofCount i.verbosity) i.request.options.journal)
    return 0

end Main
end FileWarden

open FileWarden in
/-- Runs the program on the arguments of its command line. -/
def main (args : List String) : IO UInt32 := do
  match CommandLine.parse args with
  | .ok i => return (← Main.run i).toUInt32
  | .error r =>
    IO.eprintln CommandLine.usage
    return r.exitCode.toUInt32
