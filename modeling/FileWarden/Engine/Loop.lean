import FileWarden.Engine
import FileWarden.Log

/-!
# The control loop

The loop reads events and decides on each until it is asked to stop.

* A cancelled token ends it before the next read, and a read that ends as cancelled ends it at once.
* Any other failed read is counted and logged, and the loop reads on.
* A failed block is counted and logged, and the loop reads on.

`run` is the loop with a bound on its reads. `Loop.stopped` says whether it ended by itself.
-/

namespace FileWarden

/-- How many events the loop saw, and how many reads and blocks failed. Each read counts at most once
in each, so a counter of 64 bits would wrap after `2 ^ 64` reads at the earliest, which no loop lives
to see; these counters have no bound. -/
structure Stats where
  events : Nat
  readErrors : Nat
  processErrors : Nat
  deriving DecidableEq, Repr

/-- The state of the loop. -/
structure Loop (σ : Type) where
  source : σ
  token : Token
  ledger : Ledger
  stats : Stats

/-- What a part of the loop comes to: its state after it, what happened, and whether it stopped. -/
structure Ran (σ : Type) where
  loop : Loop σ
  transcript : Transcript
  stopped : Bool

namespace Loop

/-- A loop at its start. -/
def start {σ : Type} (source : σ) (token : Token) : Loop σ := ⟨source, token, .empty, ⟨0, 0, 0⟩⟩

/-- The flags of an event, as a number to the base 8. -/
def flagsText (flags : Int32) : String :=
  "0o" ++ String.ofList (Nat.toDigits 8 flags.toUInt32.toNat)

/-- The line that describes an event. -/
def openLine (e : Event) : LogLine :=
  ⟨.debug, "open pid=" ++ toString e.pid ++ " uid=" ++ toString e.uid ++ " comm=" ++ e.comm ++
    " path=" ++ e.path ++ " flags=" ++ flagsText e.flags⟩

/-- The line about a failed read. -/
def readErrorLine (err : SourceError) : LogLine := .warning ("reading event: " ++ err.message)

/-- The line about a failed block. -/
def blockFailureLine (f : BlockFailure) : LogLine := .warning ("processing event: " ++ f.message)

/-- The line at the end of the loop. -/
def stopLine (s : Stats) : LogLine :=
  ⟨.verbose, "control loop stopped: events=" ++ toString s.events ++ " read_errors=" ++
    toString s.readErrors ++ " process_errors=" ++ toString s.processErrors⟩

/-- Decides on an event that was read. -/
def handle {σ : Type} (src : Source σ) (rules : Rules) (m : Loop σ) (e : Event) :
    Loop σ × Transcript :=
  let p := rules.process src.block m.ledger m.source e
  let failed := match p.result with
    | .ok _ => 0
    | .error _ => 1
  let warnings := match p.result with
    | .ok _ => []
    | .error f => [Entry.line (blockFailureLine f)]
  (⟨p.source, m.token, p.ledger,
      ⟨m.stats.events + 1, m.stats.readErrors, m.stats.processErrors + failed⟩⟩,
    .line (openLine e) :: p.notices.map .notice ++ warnings)

/-- One read and what follows from it. -/
def turn {σ : Type} (src : Source σ) (rules : Rules) (m : Loop σ) : Ran σ :=
  let r := src.next m.source m.token
  let m := { m with source := r.source, token := r.token }
  match r.answer with
  | .ok e =>
    let (m, t) := m.handle src rules e
    ⟨m, t, false⟩
  | .error .cancelled => ⟨m, [], true⟩
  | .error err =>
    ⟨{ m with stats := { m.stats with readErrors := m.stats.readErrors + 1 } },
      [.line (readErrorLine err)], false⟩

/-- The loop with at most so many reads. -/
def run {σ : Type} (src : Source σ) (rules : Rules) : Nat → Loop σ → Ran σ
  | 0, m => ⟨m, [], m.token.cancelled⟩
  | reads + 1, m =>
    if m.token.cancelled then ⟨m, [], true⟩
    else
      let first := m.turn src rules
      if first.stopped then first
      else
        let rest := run src rules reads first.loop
        ⟨rest.loop, first.transcript ++ rest.transcript, rest.stopped⟩

/-- The loop from its start to its last line. -/
def complete {σ : Type} (src : Source σ) (rules : Rules) (reads : Nat) (m : Loop σ) : Ran σ :=
  let ran := m.run src rules reads
  { ran with transcript := ran.transcript ++ [.line (stopLine ran.loop.stats)] }

end Loop
end FileWarden
