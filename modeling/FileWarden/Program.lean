import FileWarden.Command
import FileWarden.CommandLine

/-!
# The program

What the program does with a command line that it could read. There is no live source here, so a
request to watch ends where the source would be opened.
-/

namespace FileWarden
namespace Invocation

/-- Opening a live source always fails. -/
def noLiveSource : Command.Opener Unit Replay := fun w => (.error .unsupported, w)

/-- The session that an invocation asks for. -/
def session (i : Invocation) (read : String → Except FileError String) (token : Token) :
    Except CommandError (Session Replay) :=
  match i.request with
  | .replay events o => Command.replay read events o token
  | .watch o => (Command.watch read Replay.source Replay.reads noLiveSource o token ()).1

/-- The report on an invocation. -/
def report {φ : Type} [FileStore φ] (i : Invocation) (files : φ) (time : Instant) : Report φ :=
  match i.request with
  | .replay events o => .ofReplay files events o time .fresh
  | .watch o => .ofWatch files Replay.source Replay.reads noLiveSource o time .fresh ()

end Invocation
end FileWarden
