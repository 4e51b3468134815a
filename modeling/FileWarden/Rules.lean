import FileWarden.Ledger
import FileWarden.Policy

/-!
# Rules

* `Target` says whose events count.
* `Rules` say which paths are disallowed, for whom, and after how many violations a process is
  blocked. The threshold is at least 1.
-/

namespace FileWarden

/-- The processes whose events count. -/
inductive Target where
  | all
  | only (pid : Pid)
  deriving DecidableEq, Repr

namespace Target

/-- The target of a process number, of which 0 stands for all processes. -/
def ofNumber (n : UInt32) : Target := if n = 0 then .all else .only n

/-- Whether the events of a process count. -/
def admits : Target → Pid → Bool
  | .all, _ => true
  | .only q, p => p == q

/-- The name of a target. -/
def name : Target → String
  | .all => "all"
  | .only p => toString p

end Target

/-- Which opens are violations, and when they lead to a block. -/
structure Rules where
  policy : Policy
  threshold : Count
  target : Target
  threshold_pos : threshold ≠ 0
  deriving DecidableEq

/-- A threshold of 0 would block a process before it did anything. -/
inductive RulesError where
  | zeroThreshold
  deriving DecidableEq, Repr

/-- The words for what is wrong with rules. -/
def RulesError.message : RulesError → String
  | .zeroThreshold => "threshold must be at least 1"

namespace Rules

/-- The rules with a threshold, if that is at least 1. -/
def make (policy : Policy) (threshold : Count) (target : Target) : Except RulesError Rules :=
  if h : threshold = 0 then .error .zeroThreshold else .ok ⟨policy, threshold, target, h⟩

/-- Whether an event is a violation. -/
def violatedBy (r : Rules) (e : Event) : Bool := r.target.admits e.pid && r.policy.disallows e.path

end Rules
end FileWarden
