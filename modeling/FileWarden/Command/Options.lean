import FileWarden.Command.Error
import FileWarden.Policy.Texts

/-!
# The options of a command

Both commands take the same options for the rules. The patterns on the command line come before
those of the file.
-/

namespace FileWarden

/-- The options of a command: a list of patterns with commas between them, a file with one pattern a
line, the threshold, the process whose events count (0 for all), and the file of the journal. -/
structure Options where
  disallowed : Option String
  patternsFile : Option String
  threshold : Count
  pid : Pid
  journal : Option String
  deriving DecidableEq, Repr

namespace Options

/-- The patterns on the command line. -/
def commandTexts (o : Options) : List String := (o.disallowed.map Policy.commaTexts).getD []

/-- Checks what can be checked without a file. -/
def validate (o : Options) : Except OptionError Unit :=
  if o.threshold = 0 then .error (.invalidThreshold o.threshold)
  else if o.patternsFile = none ∧ o.commandTexts = [] then .error .noPatterns
  else .ok ()

/-- The patterns of the file, if there is one. `read` gives the text of a file. -/
def fileTexts (read : String → Except FileError String) (o : Options) :
    Except PatternsError (List String) :=
  match o.patternsFile with
  | none => .ok []
  | some path => match read path with
    | .ok text => .ok (Policy.lineTexts text)
    | .error cause => .error ⟨path, cause⟩

/-- The rules that options ask for. -/
def rules (read : String → Except FileError String) (o : Options) : Except CommandError Rules := do
  o.validate.mapError .options
  let fileTexts ← (o.fileTexts read).mapError .patterns
  let texts := o.commandTexts ++ fileTexts
  if texts = [] then .error (.options .noPatterns)
  else (Rules.make (.ofTexts texts) o.threshold (.ofNumber o.pid)).mapError .rules

end Options
end FileWarden
