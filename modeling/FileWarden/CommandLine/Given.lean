import FileWarden.Command.Options
import FileWarden.CommandLine.Word

/-!
# What a command line gave so far

`Given` holds the values of the keys, and the last key while its value is not settled. A value is
settled when the next switch comes or no argument is left. So what is wrong with a value shows only
then, while an unknown switch shows at once.
-/

namespace FileWarden
namespace CommandLine

/-- Why a command line is not run. -/
inductive Refusal where
  /-- It asks for help. -/
  | help
  /-- It asks for the version. -/
  | version
  /-- It is empty. -/
  | helpForNothing
  | missingSubcommand
  | invalidSubcommand
  | unknownArgument
  /-- A value is missing, or empty where it must not be. -/
  | invalidValue
  /-- A value is no number of 32 bits. -/
  | invalidNumber
  /-- A flag has a value. -/
  | tooManyValues
  /-- A key occurs again. -/
  | repeatedArgument
  | missingArgument
  deriving DecidableEq, Repr

/-- The exit code of a refusal; what was asked for is no failure. -/
def Refusal.exitCode : Refusal → UInt8
  | help | version => 0
  | _ => 2

/-- What was given so far. -/
structure Given where
  verbosity : Nat
  disallowed : Option String
  patternsFile : Option String
  threshold : Option UInt32
  pid : Option UInt32
  journal : Option String
  events : Option String
  /-- The last key, and its value if it came already. -/
  pending : Option (Key × Option String)
  deriving DecidableEq, Repr

namespace Given

/-- Nothing was given. -/
def nothing : Given := ⟨0, none, none, none, none, none, none, none⟩

/-! ## Values -/

/-- Any text is a value. -/
def readText (v : String) : Except Refusal String := .ok v

/-- A path is a value unless it is empty. -/
def readPath (v : String) : Except Refusal String := if v = "" then .error .invalidValue else .ok v

/-- The number of decimal digits. -/
def digits? (cs : List Char) : Option Nat :=
  if cs ≠ [] ∧ cs.all Char.isDigit then
    some (cs.foldl (fun n c => 10 * n + (c.toNat - '0'.toNat)) 0)
  else none

/-- The whole number with a sign or without. -/
def whole? (v : String) : Option Int :=
  match v.toList with
  | '-' :: cs => (digits? cs).map fun n => -(n : Int)
  | '+' :: cs => (digits? cs).map fun n => (n : Int)
  | cs => (digits? cs).map fun n => (n : Int)

/-- A whole number of 32 bits without sign is a value. -/
def readNumber (v : String) : Except Refusal UInt32 :=
  match whole? v with
  | some n => if 0 ≤ n ∧ n < 4294967296 then .ok (.ofNat n.toNat) else .error .invalidNumber
  | none => .error .invalidNumber

/-- Reads the value of a key that has none yet. -/
def once {α : Type} (old : Option α) (read : String → Except Refusal α) (v : String) :
    Except Refusal (Option α) :=
  match old with
  | some _ => .error .repeatedArgument
  | none => (read v).map some

/-- Gives a key its value. -/
def put (g : Given) (k : Key) (v : String) : Except Refusal Given :=
  match k with
  | .disallowed => (once g.disallowed readText v).map fun disallowed => { g with disallowed }
  | .patternsFile =>
    (once g.patternsFile readPath v).map fun patternsFile => { g with patternsFile }
  | .threshold => (once g.threshold readNumber v).map fun threshold => { g with threshold }
  | .pid => (once g.pid readNumber v).map fun pid => { g with pid }
  | .journal => (once g.journal readPath v).map fun journal => { g with journal }
  | .events => (once g.events readPath v).map fun events => { g with events }

/-- Settles the last key. -/
def settle (g : Given) : Except Refusal Given :=
  match g.pending with
  | none => .ok g
  | some (_, none) => .error .invalidValue
  | some (k, some v) => { g with pending := none }.put k v

/-! ## Switches -/

/-- A flag asks for more detail or ends the reading. Detail is counted up to 255. -/
def flag (g : Given) : Flag → Except Refusal Given
  | .verbose => .ok { g with verbosity := min (g.verbosity + 1) 255 }
  | .help => .error .help
  | .version => .error .version

/-- A key waits for its value, unless that is attached. -/
def key (g : Given) (k : Key) : Option String → Except Refusal Given
  | some v => g.put k v
  | none => .ok { g with pending := some (k, none) }

/-- A switch with a long name. -/
def long (g : Given) (s : Option Subcommand) (name : String) (value : Option String) :
    Except Refusal Given :=
  match long? s name, value with
  | none, _ => .error .unknownArgument
  | some (.flag _), some _ => .error .tooManyValues
  | some (.flag f), none => do (← g.settle).flag f
  | some (.key k), value => do (← g.settle).key k value

/-- The value that the letters after a key hold. An equals sign in front does not count. -/
def attached : List Char → Option String
  | [] => none
  | '=' :: v => some (String.ofList v)
  | v => some (String.ofList v)

/-- Switches of one letter each; a key takes the letters behind it. -/
def letters (s : Option Subcommand) : Given → List Char → Except Refusal Given
  | g, [] => .ok g
  | g, c :: cs => match short? s c with
    | none => .error .unknownArgument
    | some (.flag f) => do letters s (← (← g.settle).flag f) cs
    | some (.key k) => do (← g.settle).key k (attached cs)

/-! ## Results -/

/-- The threshold where none was given. -/
def defaultThreshold : Count := 2

/-- The options that were given. -/
def options (g : Given) : Options :=
  ⟨g.disallowed, g.patternsFile, g.threshold.getD defaultThreshold, g.pid.getD 0, g.journal⟩

end Given
end CommandLine
end FileWarden
