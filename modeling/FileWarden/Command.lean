import FileWarden.Command.Options
import FileWarden.Journal
import FileWarden.Session
import FileWarden.Source.Replay

/-!
# Commands

* `Command.replay` is a dry run over the events of a file. It ends when no event is left.
* `Command.watch` runs on a live source, which is opened only if the options give rules.

Both give a session or the reason why none was started. `Command.replayInto` and `Command.watchInto`
are the same commands with a sink, which is given what happens when it happens; a command that fails
leaves it as it is then. `Report.ofReplay` and `Report.ofWatch` are what they come to with a log and
the files, in which they keep their journal; `Report.ofSession` tells the same from a transcript.
-/

namespace FileWarden
namespace Command

/-- The events of a file. -/
def recording (read : String → Except FileError String) (path : String) :
    Except RecordingError (List Event) :=
  match read path with
  | .ok text => (Event.ofRecording text).mapError .line
  | .error cause => .error (.unreadable cause)

/-- The line before a dry run. -/
def replayLine (events : List Event) (path : String) : LogLine :=
  .info ("Replaying " ++ toString events.length ++ " events from " ++ path)

/-- A dry run on a source that is made of the events of a file, with a bound on its reads. -/
def replayOn {σ : Type} (src : Source σ) (reads : σ → Nat) (initial : List Event → σ)
    (read : String → Except FileError String) (path : String) (o : Options) (token : Token) :
    Except CommandError (Session σ) := do
  let rules ← o.rules read
  let events ← (recording read path).mapError .recording
  let source := initial events
  return (Session.run src rules o.journal (reads source) source token).announced
    (rules.banner ++ [replayLine events path])

/-- A dry run over the events of a file. -/
def replay (read : String → Except FileError String) (path : String) (o : Options) (token : Token) :
    Except CommandError (Session Replay) :=
  replayOn Replay.source Replay.reads (.untilDrained · false) read path o token

/-- How a live source is opened: the outcome, and the state of the opener after it. -/
abbrev Opener (ω σ : Type) := ω → Except ProbeError σ × ω

/-- The line before a session on a live source. -/
def watchLine : LogLine := .info "Press Ctrl+C to stop"

/-- A session on a live source, with a bound on its reads, and the state of the opener after it. -/
def watch {ω σ : Type} (read : String → Except FileError String) (src : Source σ) (reads : σ → Nat)
    (opener : Opener ω σ) (o : Options) (token : Token) (w : ω) :
    Except CommandError (Session σ) × ω :=
  match o.rules read with
  | .error e => (.error e, w)
  | .ok rules => match opener w with
    | (.error e, w) => (.error (.probe e), w)
    | (.ok source, w) =>
      (.ok ((Session.run src rules o.journal (reads source) source token).announced
        (rules.banner ++ [watchLine])), w)

/-! ## Sinks -/

variable {κ σ : Type}

/-- A part of a command with a sink. What the sink was given before a failure stays with it. -/
abbrev Act (κ α : Type) := ExceptT CommandError (StateM κ) α

/-- A session and the lines that announce it, with a sink. -/
def sessionInto (emit : κ → Entry → κ) (lines : List LogLine) (src : Source σ) (rules : Rules)
    (journal : Option String) (reads : Nat) (source : σ) (token : Token) (k : κ) : Summary × κ :=
  let k := (lines.map .line).foldl emit k
  let (summary, _, _, k) := Session.runInto emit src rules journal reads source token k
  (summary, k)

/-- A dry run with a sink. `read` reads the files as the sink has left them. -/
def replayInto (emit : κ → Entry → κ) (read : κ → String → Except FileError String)
    (src : Source σ) (reads : σ → Nat) (initial : List Event → σ) (path : String) (o : Options)
    (token : Token) : Act κ Summary := do
  let rules ← MonadExcept.ofExcept (o.rules (read (← get)))
  let events ← MonadExcept.ofExcept ((recording (read (← get)) path).mapError .recording)
  let source := initial events
  modifyGet (sessionInto emit (rules.banner ++ [replayLine events path]) src rules o.journal
    (reads source) source token)

/-- A session on a live source with a sink, next to which the state of the opener stands. -/
def watchInto {ω : Type} (emit : κ → Entry → κ) (read : κ → String → Except FileError String)
    (src : Source σ) (reads : σ → Nat) (opener : Opener ω σ) (o : Options) (token : Token) :
    Act (κ × ω) Summary := do
  let rules ← MonadExcept.ofExcept (o.rules (read (← get).1))
  let opened ← modifyGet fun (k, w) =>
    let (opened, w) := opener w
    (opened, k, w)
  let source ← MonadExcept.ofExcept (opened.mapError .probe)
  modifyGet fun (k, w) =>
    let (summary, k) := sessionInto emit (rules.banner ++ [watchLine]) src rules o.journal
      (reads source) source token k
    (summary, k, w)

end Command

/-- What a command shows and leaves behind. -/
structure Report (φ : Type) where
  result : Except CommandError Summary
  log : List LogLine
  files : φ

namespace Report

/-- The journal that options ask for. -/
def journal (o : Options) (time : Instant) : Option Journal := o.journal.map (⟨·, time⟩)

/-- The report on a session that was started or not. -/
def ofSession {φ σ : Type} [FileStore φ] (o : Options) (time : Instant) (files : φ) :
    Except CommandError (Session σ) → Report φ
  | .error e => ⟨.error e, [], files⟩
  | .ok s =>
    let (log, files) := Journal.deliver (journal o time) files s.transcript
    ⟨.ok s.summary, log, files⟩

/-- The report on a dry run. -/
def ofReplay {φ : Type} [FileStore φ] (files : φ) (path : String) (o : Options) (time : Instant)
    (token : Token) : Report φ :=
  let (result, log, files) := (Command.replayInto (Journal.emit (journal o time))
    (FileStore.read ·.2) Replay.source Replay.reads (.untilDrained · false) path o
    token).run.run ([], files)
  ⟨result, log, files⟩

/-- The report on a session on a live source. -/
def ofWatch {φ ω σ : Type} [FileStore φ] (files : φ) (src : Source σ) (reads : σ → Nat)
    (opener : Command.Opener ω σ) (o : Options) (time : Instant) (token : Token) (w : ω) :
    Report φ :=
  let (result, (log, files), _) := (Command.watchInto (Journal.emit (journal o time))
    (FileStore.read ·.2) src reads opener o token).run.run (([], files), w)
  ⟨result, log, files⟩

/-- The line about a failed command. -/
def errorText (e : CommandError) : String := "error: " ++ e.message ++ "\n"

/-- What a reader of a level sees. -/
def text {φ : Type} (reader : Level) (r : Report φ) : String :=
  logText reader r.log ++
    match r.result with
    | .ok _ => ""
    | .error e => errorText e

/-- The exit code of a command. -/
def exitCode {φ : Type} (r : Report φ) : UInt8 :=
  match r.result with
  | .ok _ => 0
  | .error e => e.exitCode

end Report
end FileWarden
