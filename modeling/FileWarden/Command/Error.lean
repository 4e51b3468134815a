import FileWarden.Event.Lines
import FileWarden.Files
import FileWarden.Rules

/-!
# Why a command fails

A command fails before its session starts, and for one reason. Each kind of reason has its own words
and its own exit code.
-/

namespace FileWarden

/-- What is wrong with the options of a command. -/
inductive OptionError where
  | noPatterns
  | invalidThreshold (threshold : Count)
  deriving DecidableEq, Repr

/-- The words for what is wrong with options. -/
def OptionError.message : OptionError → String
  | noPatterns => "no disallowed patterns given (use --disallowed or --patterns-file)"
  | invalidThreshold n => "threshold must be at least 1, got " ++ toString n

/-- A file of patterns cannot be read. -/
structure PatternsError where
  path : String
  cause : FileError
  deriving DecidableEq, Repr

/-- Names the file and the reason. -/
def PatternsError.message (e : PatternsError) : String :=
  "failed to read pattern file " ++ e.path ++ ": " ++ e.cause.message

/-- What is wrong with a recording. -/
inductive RecordingError where
  | unreadable (cause : FileError)
  | line (cause : Event.LineError)
  deriving DecidableEq, Repr

/-- The words for what is wrong with a recording. -/
def RecordingError.message : RecordingError → String
  | unreadable cause => "failed to read event file: " ++ cause.message
  | line cause => cause.message

/-- Why there is no live source. -/
inductive ProbeError where
  | load (reason : String)
  | attach (program reason : String)
  | insufficientPermissions
  | ringBuffer (reason : String)
  | unsupported
  deriving DecidableEq, Repr

/-- The words for why there is no live source. -/
def ProbeError.message : ProbeError → String
  | load reason => "failed to load BPF program: " ++ reason
  | attach program reason => "failed to attach " ++ program ++ ": " ++ reason
  | insufficientPermissions =>
    "insufficient permissions (requires root or CAP_BPF + CAP_MAC_ADMIN)"
  | ringBuffer reason => "failed to open ring buffer: " ++ reason
  | unsupported =>
    "fence was built without BPF support (enable the \x60bpf\x60 feature)"

/-- Why the request to stop could not be listened for. -/
inductive SignalError where
  | alreadyListening
  deriving DecidableEq, Repr

/-- The words for why the request to stop could not be listened for. -/
def SignalError.message : SignalError → String
  | alreadyListening => "Ctrl-C error: Ctrl-C signal handler already registered"

/-- Why a command fails. -/
inductive CommandError where
  | options (cause : OptionError)
  | rules (cause : RulesError)
  | patterns (cause : PatternsError)
  | recording (cause : RecordingError)
  | probe (cause : ProbeError)
  | signal (cause : SignalError)
  deriving DecidableEq, Repr

namespace CommandError

/-- The words for why a command fails. -/
def message : CommandError → String
  | options e => "invalid argument: " ++ e.message
  | rules e => "invalid configuration: " ++ e.message
  | patterns e => "pattern file error: " ++ e.message
  | recording e => "replay file error: " ++ e.message
  | probe e => "BPF error: " ++ e.message
  | signal e => "failed to install signal handler: " ++ e.message

/-- The exit code of a failed command. -/
def exitCode : CommandError → UInt8
  | options _ => 1
  | rules _ => 1
  | patterns _ => 2
  | recording _ => 3
  | probe _ => 4
  | signal _ => 5

end CommandError
end FileWarden
