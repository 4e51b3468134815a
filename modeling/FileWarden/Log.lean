import FileWarden.Notice

/-!
# Log lines and transcripts

A log line has a level; a reader who asked for a level sees the lines of that level and of the
quieter ones. A transcript is what happens in a session, in order: log lines, and notices, which are
logged as well.
-/

namespace FileWarden

/-- How much detail a log line is. -/
inductive Level where
  | normal
  | verbose
  | debug
  deriving DecidableEq, Repr

namespace Level

/-- The level of a reader who asked for detail so many times. -/
def ofCount : Nat → Level
  | 0 => normal
  | 1 => verbose
  | _ => debug

/-- The levels by detail. -/
def rank : Level → Nat
  | normal => 0
  | verbose => 1
  | debug => 2

/-- Whether a reader of this level sees lines of another. -/
def shows (reader line : Level) : Bool := line.rank ≤ reader.rank

end Level

/-- A line of the log. -/
structure LogLine where
  level : Level
  text : String
  deriving DecidableEq, Repr

namespace LogLine

/-- A line for every reader. -/
def info (text : String) : LogLine := ⟨.normal, text⟩

/-- A line for every reader that something went wrong. -/
def warning (text : String) : LogLine := ⟨.normal, "warning: " ++ text⟩

end LogLine

/-- How a log reads for a reader of a level: one line after the other, each ended. -/
def logText (reader : Level) (lines : List LogLine) : String :=
  String.join ((lines.filter fun l => reader.shows l.level).map fun l => l.text ++ "\n")

/-- Something that happens in a session. -/
inductive Entry where
  | line (l : LogLine)
  | notice (n : Notice)
  deriving DecidableEq, Repr

namespace Entry

/-- The log line of an entry. -/
def logLine : Entry → LogLine
  | .line l => l
  | .notice n => .info n.message

/-- The notice of an entry. -/
def notice? : Entry → Option Notice
  | .line _ => none
  | .notice n => some n

end Entry

/-- What happens in a session, in order. -/
abbrev Transcript := List Entry

namespace Transcript

/-- The log of a transcript. -/
def log (t : Transcript) : List LogLine := t.map Entry.logLine

/-- The notices of a transcript. -/
def notices (t : Transcript) : List Notice := t.filterMap Entry.notice?

end Transcript

namespace Notice

/-- How many violations there are among notices. -/
def violations (ns : List Notice) : Nat :=
  ns.countP fun
    | .violation .. => true
    | .blocked .. => false

/-- The processes that notices report as blocked, in order. -/
def blockedPids (ns : List Notice) : List Pid :=
  ns.filterMap fun
    | .violation .. => none
    | .blocked pid .. => some pid

end Notice
end FileWarden
