import FileWarden.Engine.Loop

/-!
# The loop with a sink

A sink is given what happens at the moment it happens, and `emit` says what it makes of it.

* `Rules.processInto` gives the notices of an event to a sink: that of a violation before a block is
  asked for, that of a block after it.
* `Loop.runInto` gives the log lines to it as well.
-/

namespace FileWarden

variable {σ κ : Type}

/-- Decides on an event, and gives each notice to a sink at once. -/
def Rules.processInto (emit : κ → Notice → κ) (r : Rules)
    (block : σ → Pid → Except SourceError Unit × σ) (l : Ledger) (s : σ) (k : κ) (e : Event) :
    Except BlockFailure Outcome × Ledger × σ × κ :=
  match r.judge l e with
  | (.notTargeted, l) => (.ok .notTargeted, l, s, k)
  | (.allowed, l) => (.ok .allowed, l, s, k)
  | (.counted n, l) => (.ok (.violation n), l, s, emit k (r.violation e n))
  | (.crossed n, l) =>
    let k := emit k (r.violation e n)
    match block s e.pid with
    | (.ok (), s) => (.ok (.blocked n), l, s, emit k (.blocked e.pid e.comm n))
    | (.error cause, s) => (.error ⟨e.pid, cause⟩, l, s, k)

namespace Loop

/-- One read and what follows from it, with a sink. -/
def turnInto (emit : κ → Entry → κ) (src : Source σ) (r : Rules) (m : Loop σ) (k : κ) :
    Loop σ × Bool × κ :=
  let read := src.next m.source m.token
  match read.answer with
  | .ok e =>
    let k := emit k (.line (openLine e))
    match r.processInto (fun k n => emit k (.notice n)) src.block m.ledger read.source k e with
    | (.ok _, l, s, k) =>
      (⟨s, read.token, l, { m.stats with events := m.stats.events + 1 }⟩, false, k)
    | (.error f, l, s, k) =>
      (⟨s, read.token, l,
          ⟨m.stats.events + 1, m.stats.readErrors, m.stats.processErrors + 1⟩⟩, false,
        emit k (.line (blockFailureLine f)))
  | .error .cancelled => (⟨read.source, read.token, m.ledger, m.stats⟩, true, k)
  | .error err =>
    (⟨read.source, read.token, m.ledger, { m.stats with readErrors := m.stats.readErrors + 1 }⟩,
      false, emit k (.line (readErrorLine err)))

/-- The loop with at most so many reads, with a sink. -/
def runInto (emit : κ → Entry → κ) (src : Source σ) (r : Rules) :
    Nat → Loop σ → κ → Loop σ × Bool × κ
  | 0, m, k => (m, m.token.cancelled, k)
  | reads + 1, m, k =>
    if m.token.cancelled then (m, true, k)
    else match m.turnInto emit src r k with
      | (m, true, k) => (m, true, k)
      | (m, false, k) => runInto emit src r reads m k

end Loop
end FileWarden
