import FileWarden.Rules
import FileWarden.Source

/-!
# Deciding on events

* `Rules.judge` counts a violation and finds the event at which its process crosses the threshold.
  A process crosses once: it is marked in the ledger at that event.
* `Rules.process` has the source block a process that crosses, and says what is to be reported. A
  block that fails is not taken back from the ledger and not tried again. `Rules.processSeeing` shows
  the block the ledger, in which the process is already marked.
-/

namespace FileWarden

/-- What an event means for its process. -/
inductive Verdict where
  /-- The process is not watched. -/
  | notTargeted
  /-- The path is not disallowed. -/
  | allowed
  /-- A violation that does not lead to a block. -/
  | counted (count : Count)
  /-- The violation with which the process crosses the threshold. -/
  | crossed (count : Count)
  deriving DecidableEq, Repr

/-- What became of an event. -/
inductive Outcome where
  | notTargeted
  | allowed
  | violation (count : Count)
  | blocked (count : Count)
  deriving DecidableEq, Repr

/-- A process that crossed the threshold could not be blocked. -/
structure BlockFailure where
  pid : Pid
  cause : SourceError
  deriving DecidableEq, Repr

/-- Names the process and the reason. -/
def BlockFailure.message (f : BlockFailure) : String :=
  "failed to block pid " ++ toString f.pid ++ ": " ++ f.cause.message

/-- What processing an event comes to. -/
structure Processed (σ : Type) where
  result : Except BlockFailure Outcome
  notices : List Notice
  ledger : Ledger
  source : σ

namespace Rules

/-- What an event means, and the ledger after it. -/
def judge (r : Rules) (l : Ledger) (e : Event) : Verdict × Ledger :=
  if !r.target.admits e.pid then (.notTargeted, l)
  else if !r.policy.disallows e.path then (.allowed, l)
  else
    let l := l.record e.pid
    let count := l.count e.pid
    if count < r.threshold then (.counted count, l)
    else match l.mark e.pid with
      | (true, l) => (.crossed count, l)
      | (false, _) => (.counted count, l)

/-- The notice of a violation. -/
def violation (r : Rules) (e : Event) (count : Count) : Notice :=
  .violation e.pid e.comm e.path count r.threshold

/-- Decides on an event, with a block that is shown the ledger as it stands when it is called. -/
def processSeeing {σ : Type} (r : Rules) (block : Ledger → σ → Pid → Except SourceError Unit × σ)
    (l : Ledger) (s : σ) (e : Event) : Processed σ :=
  match r.judge l e with
  | (.notTargeted, l) => ⟨.ok .notTargeted, [], l, s⟩
  | (.allowed, l) => ⟨.ok .allowed, [], l, s⟩
  | (.counted n, l) => ⟨.ok (.violation n), [r.violation e n], l, s⟩
  | (.crossed n, l) =>
    match block l s e.pid with
    | (.ok (), s) => ⟨.ok (.blocked n), [r.violation e n, .blocked e.pid e.comm n], l, s⟩
    | (.error cause, s) => ⟨.error ⟨e.pid, cause⟩, [r.violation e n], l, s⟩

/-- Decides on an event, with a source that can block processes. -/
def process {σ : Type} (r : Rules) (block : σ → Pid → Except SourceError Unit × σ) (l : Ledger)
    (s : σ) (e : Event) : Processed σ :=
  r.processSeeing (fun _ => block) l s e

end Rules
end FileWarden
