import FileWarden.CommandLine.Given

/-!
# Command lines

A command line has flags, a subcommand, and the switches of that. `CommandLine.parse` reads it from
left to right, and the first argument that does not fit is at fault. What is missing counts last.
-/

namespace FileWarden

/-- What the program is to do. -/
inductive Request where
  | watch (o : Options)
  | replay (events : String) (o : Options)
  deriving DecidableEq, Repr

/-- The options of a request. -/
def Request.options : Request → Options
  | .watch o => o
  | .replay _ o => o

/-- A request, and how often the command line asked for more detail. -/
structure Invocation where
  verbosity : Nat
  request : Request
  deriving DecidableEq, Repr

namespace CommandLine

/-- How to write a command line. -/
def usage : String :=
  "usage: [-v] (watch | replay -e FILE) [-d PATTERNS] [--patterns-file FILE] " ++
    "[-t COUNT] [--pid PID] [--journal FILE]"

/-- Reads the switches of a subcommand, which takes no other arguments. -/
def switches (s : Subcommand) : Given → List String → Except Refusal Given
  | g, [] => g.settle
  | g, a :: as => match Word.ofString a with
    | .ending => if as = [] then g.settle else .error .unknownArgument
    | .long name value => do switches s (← g.long (some s) name value) as
    | .letters cs => do switches s (← Given.letters (some s) g cs) as
    | .plain v => match g.pending with
      | some (k, none) => switches s { g with pending := some (k, some v) } as
      | _ => .error .unknownArgument

/-- The request of a subcommand. -/
def request (s : Subcommand) (g : Given) : Except Refusal Request :=
  match s, g.events with
  | .watch, _ => .ok (.watch g.options)
  | .replay, some events => .ok (.replay events g.options)
  | .replay, none => .error .missingArgument

/-- Reads the arguments after a subcommand. The detail that they ask for replaces that asked for
before. -/
def invocation (s : Subcommand) (verbosity : Nat) (as : List String) :
    Except Refusal Invocation := do
  let g ← switches s .nothing as
  return ⟨if g.verbosity = 0 then verbosity else g.verbosity, ← request s g⟩

/-- What a request for help comes to: it may name a subcommand. -/
def help (as : List String) : Refusal :=
  match as with
  | [] => .help
  | [name] => if (verb? name).isSome then .help else .invalidSubcommand
  | _ => .invalidSubcommand

/-- What a command line without a subcommand comes to. -/
def withoutSubcommand (g : Given) : Refusal :=
  if g.verbosity = 0 then .helpForNothing else .missingSubcommand

/-- Reads the arguments up to the subcommand, and those after it. -/
def top : Given → List String → Except Refusal Invocation
  | g, [] => .error (withoutSubcommand g)
  | g, a :: as => match Word.ofString a with
    | .ending => match as with
      | [] => .error (withoutSubcommand g)
      | name :: _ =>
        .error (if (verb? name).isSome then .unknownArgument else .invalidSubcommand)
    | .long name value => do top (← g.long none name value) as
    | .letters cs => do top (← Given.letters none g cs) as
    | .plain name => match verb? name with
      | some (.run s) => invocation s g.verbosity as
      | some .help => .error (help as)
      | none => .error .invalidSubcommand

/-- The invocation that arguments stand for. -/
def parse (as : List String) : Except Refusal Invocation := top .nothing as

end CommandLine
end FileWarden
