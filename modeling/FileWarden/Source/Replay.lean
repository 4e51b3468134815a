import FileWarden.Source

/-!
# Replayed events

A replay hands out the events of a list in order. It enforces nothing: it only notes which processes
it was asked to block.

* A read of a closed replay fails; a cancelled read leaves the events as they are.
* When no event is left, `AtEnd` says whether the replay cancels the token of the reader or waits
  until somebody else does. Either way the read ends as cancelled.
-/

namespace FileWarden

/-- What a replay does when a read finds no event left. -/
inductive AtEnd where
  | wait
  | cancelReader
  deriving DecidableEq, Repr

/-- A replay: the events left, the processes it was asked to block, in order, and its settings. -/
structure Replay where
  pending : List Event
  atEnd : AtEnd
  rejecting : Bool
  calls : List Pid
  closed : Bool
  deriving DecidableEq, Repr

namespace Replay

/-- A replay that waits at its end, and accepts blocks unless it is told to reject them. -/
def waiting (events : List Event) (rejecting : Bool) : Replay :=
  ⟨events, .wait, rejecting, [], false⟩

/-- A replay that cancels its reader at its end. -/
def untilDrained (events : List Event) (rejecting : Bool) : Replay :=
  ⟨events, .cancelReader, rejecting, [], false⟩

/-- What a read finds: an answer, or nothing until the token is cancelled. -/
inductive Found where
  | answer (a : Except SourceError Event)
  | parked

/-- Reads as far as that goes without waiting. -/
def poll (r : Replay) (t : Token) : Found × Token × Replay :=
  if r.closed then (.answer (.error .closed), t, r)
  else if t.cancelled then (.answer (.error .cancelled), t, r)
  else match r.pending, r.atEnd with
    | e :: rest, _ => (.answer (.ok e), t, { r with pending := rest })
    | [], .cancelReader => (.answer (.error .cancelled), t.cancel, r)
    | [], .wait => (.parked, t, r)

/-- Reads an event. A parked read ends when the token is cancelled. -/
def next (r : Replay) (t : Token) : Reading Replay :=
  match r.poll t with
  | (.answer a, t, r) => ⟨a, t, r⟩
  | (.parked, t, r) => ⟨.error .cancelled, t.cancel, r⟩

/-- Notes that a process is to be blocked. -/
def block (r : Replay) (p : Pid) : Except SourceError Unit × Replay :=
  if r.closed then (.error .closed, r)
  else
    let r := { r with calls := r.calls ++ [p] }
    if r.rejecting then (.error (.block p "enforcement map rejected update"), r) else (.ok (), r)

/-- Closes a replay for good. -/
def close (r : Replay) : Except SourceError Unit × Replay := (.ok (), { r with closed := true })

/-- How often a process was to be blocked. -/
def callsFor (r : Replay) (p : Pid) : Nat := r.calls.count p

/-- How often each process was to be blocked, for those that ever were. -/
def tally (r : Replay) : List (Pid × Nat) := r.calls.eraseDups.map fun p => (p, r.callsFor p)

/-- How often processes were to be blocked, all together. -/
def totalCalls (r : Replay) : Nat := r.tally.foldl (fun total c => total + c.2) 0

/-- Whether a process was blocked. -/
def isBlocked (r : Replay) (p : Pid) : Bool := decide (0 < r.callsFor p) && !r.rejecting

/-- Replays as event sources. -/
def source : Source Replay := ⟨next, block, close⟩

/-- As many reads as an open replay answers before it ends. -/
def reads (r : Replay) : Nat := r.pending.length + 1

end Replay
end FileWarden
