import FileWarden.Event.Record

/-!
# Event sources

An event source answers reads, blocks processes and is closed at the end. Whoever reads gives it a
token. A cancelled token asks both sides to stop, and either side can cancel it.
-/

namespace FileWarden

/-- What can go wrong with an event source. -/
inductive SourceError where
  /-- The read was cancelled. -/
  | cancelled
  | closed
  | read (reason : String)
  | decode (cause : Record.TooShort)
  | block (pid : Pid) (reason : String)
  deriving DecidableEq, Repr

namespace SourceError

/-- The words for what went wrong. -/
def message : SourceError → String
  | cancelled => "operation cancelled"
  | closed => "event source is closed"
  | read reason => "failed to read event: " ++ reason
  | decode cause => "failed to decode event: " ++ cause.message
  | block pid reason => "failed to block pid " ++ toString pid ++ ": " ++ reason

end SourceError

/-- A request to stop, which is made once and stays. -/
structure Token where
  cancelled : Bool
  deriving DecidableEq, Repr

namespace Token

/-- Nobody asked to stop. -/
def fresh : Token := ⟨false⟩

/-- Asks to stop. -/
def cancel (_ : Token) : Token := ⟨true⟩

end Token

/-- What a read comes to: its answer, and the token and the source after it. -/
structure Reading (σ : Type) where
  answer : Except SourceError Event
  token : Token
  source : σ

/-- An event source with states `σ`. -/
structure Source (σ : Type) where
  next : σ → Token → Reading σ
  block : σ → Pid → Except SourceError Unit × σ
  close : σ → Except SourceError Unit × σ

end FileWarden
