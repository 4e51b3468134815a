import FileWarden.Event
import FileWarden.Json.Skip
import FileWarden.Json.Writer

/-!
# Events as JSON

An event is the object of its fields, in the order `pid`, `uid`, `comm`, `path`, `flags`. `ofJson`
takes the members in any order, ignores those of other names and takes missing flags as 0. It also
takes the array of the fields in order. Texts are not cut to their bounds.
-/

namespace FileWarden
namespace Event

open Json

/-- The fields of an event that were read so far. -/
structure Draft where
  pid : Option UInt32
  uid : Option UInt32
  comm : Option String
  path : Option String
  flags : Option Int32
  deriving DecidableEq, Repr

namespace Draft

/-- No field was read. -/
def empty : Draft := ⟨none, none, none, none, none⟩

/-- The event of the fields; the first that is missing is at fault. -/
def toEvent (d : Draft) : Except Reason Event := do
  let pid ← required "pid" d.pid
  let uid ← required "uid" d.uid
  let comm ← required "comm" d.comm
  let path ← required "path" d.path
  return ⟨pid, uid, comm, path, d.flags.getD 0⟩

/-- Reads a member into the fields. -/
def member (d : Draft) (key : String) : Reader Draft := fun cs =>
  match key with
  | "pid" => (field key d.pid Found.u32 cs).map fun (v, rest) => ({ d with pid := some v }, rest)
  | "uid" => (field key d.uid Found.u32 cs).map fun (v, rest) => ({ d with uid := some v }, rest)
  | "comm" =>
    (field key d.comm Found.text cs).map fun (v, rest) => ({ d with comm := some v }, rest)
  | "path" =>
    (field key d.path Found.text cs).map fun (v, rest) => ({ d with path := some v }, rest)
  | "flags" =>
    (field key d.flags Found.i32 cs).map fun (v, rest) => ({ d with flags := some v }, rest)
  | _ => do return (d, ← skip (← colon cs))

end Draft

/-- Reads an item of the array form; the array must not end before it. -/
def item {α : Type} (index : Nat) (type : Found → Except Reason α) : Reader α := fun cs => do
  match ← toItem (index = 0) cs with
  | (true, rest) => scalar type rest
  | (false, rest) => .error (.here (.wrongLength index "struct Event with 5 elements") rest)

/-- Reads the end of the array form. -/
def endOfItems (cs : List Char) : Except Fault (List Char) :=
  match skipBlanks cs with
  | [] => .error (.next .endInList [])
  | ']' :: rest => .ok rest
  | ',' :: rest => match skipBlanks rest with
    | ']' :: rest => .error (.next .trailingComma (']' :: rest))
    | rest => .error (.next .trailingCharacters rest)
  | rest => .error (.next .trailingCharacters rest)

/-- Reads an event. -/
def reader : Reader Event := fun cs =>
  match skipBlanks cs with
  | '\x7b' :: cs => do
    let (d, rest) ← members Draft.member (cs.length + 1) true .empty cs
    match d.toEvent with
    | .ok e => return (e, rest)
    | .error r => .error (.here r rest)
  | '[' :: cs => do
    let (pid, rest) ← item 0 Found.u32 cs
    let (uid, rest) ← item 1 Found.u32 rest
    let (comm, rest) ← item 2 Found.text rest
    let (path, rest) ← item 3 Found.text rest
    match ← toItem false rest with
    | (false, rest) => return (⟨pid, uid, comm, path, 0⟩, rest)
    | (true, rest) =>
      let (flags, rest) ← scalar Found.i32 rest
      return (⟨pid, uid, comm, path, flags⟩, ← endOfItems rest)
  | cs => scalar (fun f => .error (.wrongType f "struct Event")) cs

/-- The event that a JSON text stands for. -/
def ofJson (text : String) : Except Json.Error Event :=
  parse (fun cs => (reader cs).map fun (e, rest) => (.ok e, rest)) text

/-- The JSON text of an event. -/
def toJson (e : Event) : String :=
  String.ofList (writeObject [
    ("pid", writeNat e.pid.toNat),
    ("uid", writeNat e.uid.toNat),
    ("comm", writeString e.comm),
    ("path", writeString e.path),
    ("flags", writeInt e.flags.toInt)])

end Event
end FileWarden
