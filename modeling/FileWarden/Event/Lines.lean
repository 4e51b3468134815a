import FileWarden.Event.Json
import FileWarden.Policy.Texts

/-!
# Lists of events as text

A recording of events has the JSON text of one event a line. Blank lines and comments count as lines
and hold no event. The texts of an event are cut to their bounds.
-/

namespace FileWarden
namespace Event

/-- What is wrong with a line, and which line it is, from 1. -/
structure LineError where
  line : Nat
  cause : Json.Error
  deriving DecidableEq, Repr

/-- Names the line and what is wrong with it. -/
def LineError.message (e : LineError) : String :=
  "invalid event on line " ++ toString e.line ++ ": " ++ e.cause.message

/-- The events of lines, of which the first has number `n`. The first line that is no event is at
fault. -/
def ofLines (n : Nat) : List (List Char) → Except LineError (List Event)
  | [] => .ok []
  | line :: lines =>
    if Policy.isEntry (Text.trim line) then
      match ofJson (String.ofList (Text.trim line)) with
      | .ok e => (ofLines (n + 1) lines).map (e.cut :: ·)
      | .error cause => .error ⟨n, cause⟩
    else ofLines (n + 1) lines

/-- The events of a recording. -/
def ofRecording (text : String) : Except LineError (List Event) :=
  ofLines 1 (Text.splitOn '\n' text.toList)

end Event
end FileWarden
