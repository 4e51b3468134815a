import FileWarden.Engine.Sink
import FileWarden.Text.Quoted

/-!
# Sessions

A session runs the control loop on an open source, closes the source and reports.

* `Rules.banner` is what a reader sees of the rules before a session.
* `Session.run` is a session. The source is closed once, whatever happened before; a failed close is
  a warning. `Session.runInto` gives what happens to a sink.
* `Summary.lines` is what a reader sees at the end.
-/

namespace FileWarden

/-- What a session leaves behind. -/
structure Summary where
  stats : Stats
  violations : UInt64
  /-- How many processes have violations. -/
  offenders : Nat
  /-- The blocked processes, in ascending order. -/
  blocked : List Pid
  deriving DecidableEq, Repr

namespace Summary

/-- The blocked processes as a list in brackets, or a word if there are none. -/
def blockedText (ps : List Pid) : String :=
  if ps = [] then "none" else "[" ++ String.intercalate ", " (ps.map toString) ++ "]"

/-- The lines at the end of a session. -/
def lines (s : Summary) : List LogLine :=
  [.info ("Total violations: " ++ toString s.violations ++ " from " ++ toString s.offenders ++
      " process(es)"),
    .info ("Blocked PIDs: " ++ blockedText s.blocked)]

end Summary

/-- The lines that describe the rules. -/
def Rules.banner (r : Rules) : List LogLine :=
  [.info ("Disallowed files: " ++ Text.quoteAll r.policy.texts),
    .info ("Threshold: " ++ toString r.threshold ++ " file(s)")] ++
  match r.target with
  | .all => []
  | .only p => [.info ("Target PID: " ++ toString p)]

/-- A session that has come to its end. -/
structure Session (σ : Type) where
  summary : Summary
  transcript : Transcript
  source : σ
  /-- Whether the loop ended by itself. -/
  stopped : Bool

namespace Session

/-- The line that names the journal. -/
def journalLines : Option String → List LogLine
  | some path => [⟨.verbose, "Journal: " ++ path⟩]
  | none => []

/-- The lines about the closing of a source. -/
def closeLines : Except SourceError Unit → List LogLine
  | .ok () => []
  | .error e => [.warning ("closing event source: " ++ e.message)]

/-- What a loop leaves behind. -/
def summaryOf {σ : Type} (m : Loop σ) : Summary :=
  ⟨m.stats, m.ledger.total, m.ledger.offenders, m.ledger.blocked⟩

/-- A session with at most so many reads. -/
def run {σ : Type} (src : Source σ) (rules : Rules) (journal : Option String) (reads : Nat)
    (source : σ) (token : Token) : Session σ :=
  let ran := (Loop.start source token).complete src rules reads
  let (closed, source) := src.close ran.loop.source
  let summary := summaryOf ran.loop
  ⟨summary,
    (journalLines journal).map .line ++ ran.transcript ++
      (.info "Exiting..." :: closeLines closed ++ summary.lines).map .line,
    source, ran.stopped⟩

/-- A session with a sink. It comes to its summary, the source, whether the loop ended by itself,
and the sink. -/
def runInto {σ κ : Type} (emit : κ → Entry → κ) (src : Source σ) (r : Rules)
    (journal : Option String) (reads : Nat) (source : σ) (token : Token) (k : κ) :
    Summary × σ × Bool × κ :=
  let k := ((journalLines journal).map .line).foldl emit k
  let (m, stopped, k) := (Loop.start source token).runInto emit src r reads k
  let k := emit (emit k (.line (Loop.stopLine m.stats))) (.line (.info "Exiting..."))
  let (closed, source) := src.close m.source
  let summary := summaryOf m
  (summary, source, stopped, ((closeLines closed ++ summary.lines).map .line).foldl emit k)

/-- A session with lines in front of its transcript. -/
def announced {σ : Type} (lines : List LogLine) (s : Session σ) : Session σ :=
  { s with transcript := lines.map .line ++ s.transcript }

end Session
end FileWarden
