/-!
# The words of a command line

* A `Word` is what an argument looks like: it may begin with one hyphen or with two.
* A `Switch` is what a word with hyphens can name. A flag stands alone, a key takes a value.
* `long?` and `short?` give the switches that a subcommand knows by their names.
-/

namespace FileWarden
namespace CommandLine

/-- What the program can be asked to do. -/
inductive Subcommand where
  | watch
  | replay
  deriving DecidableEq, Repr

/-- A switch with a value. -/
inductive Key where
  | disallowed
  | patternsFile
  | threshold
  | pid
  | journal
  | events
  deriving DecidableEq, Repr

/-- A switch without a value. -/
inductive Flag where
  | verbose
  | help
  | version
  deriving DecidableEq, Repr

/-- A flag or a key. -/
inductive Switch where
  | flag (f : Flag)
  | key (k : Key)
  deriving DecidableEq, Repr

/-- What a plain word before the switches of a subcommand can ask for. -/
inductive Verb where
  | run (s : Subcommand)
  | help
  deriving DecidableEq, Repr

/-- The verb with a name. -/
def verb? : String → Option Verb
  | "watch" => some (.run .watch)
  | "replay" => some (.run .replay)
  | "help" => some .help
  | _ => none

/-- The keys that both subcommands know, by their long names. -/
def ruleKey? : String → Option Key
  | "disallowed" => some .disallowed
  | "patterns-file" => some .patternsFile
  | "threshold" => some .threshold
  | "pid" => some .pid
  | "journal" => some .journal
  | _ => none

/-- The switch with a long name. Before a subcommand only flags are known. -/
def long? (s : Option Subcommand) (name : String) : Option Switch :=
  if name = "verbose" then some (.flag .verbose)
  else if name = "help" then some (.flag .help)
  else match s with
    | none => if name = "version" then some (.flag .version) else none
    | some .watch => (ruleKey? name).map .key
    | some .replay => if name = "events" then some (.key .events) else (ruleKey? name).map .key

/-- The switch with a name of one letter. -/
def short? (s : Option Subcommand) (letter : Char) : Option Switch :=
  match letter, s with
  | 'v', _ => some (.flag .verbose)
  | 'h', _ => some (.flag .help)
  | 'V', none => some (.flag .version)
  | 'd', some _ => some (.key .disallowed)
  | 't', some _ => some (.key .threshold)
  | 'e', some .replay => some (.key .events)
  | _, _ => none

/-- What an argument looks like. -/
inductive Word where
  /-- Two hyphens alone: no switch follows. -/
  | ending
  /-- Two hyphens, and a name that an equals sign may part from a value. -/
  | long (name : String) (value : Option String)
  /-- A hyphen and letters. -/
  | letters (cs : List Char)
  /-- Anything else. A hyphen alone is plain. -/
  | plain (s : String)
  deriving DecidableEq, Repr

/-- The name and the value of a word with two hyphens. -/
def Word.ofLong (cs : List Char) : Word :=
  .long (String.ofList (cs.takeWhile (· ≠ '='))) <|
    match cs.dropWhile (· ≠ '=') with
    | [] => none
    | _ :: value => some (String.ofList value)

/-- The word that an argument is. -/
def Word.ofString (s : String) : Word :=
  match s.toList with
  | ['-', '-'] => .ending
  | '-' :: '-' :: cs => ofLong cs
  | '-' :: c :: cs => .letters (c :: cs)
  | _ => .plain s

end CommandLine
end FileWarden
