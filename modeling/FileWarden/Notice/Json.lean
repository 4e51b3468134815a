import FileWarden.Json.Value
import FileWarden.Json.Writer
import FileWarden.Notice

/-!
# Notices as JSON

A notice is an object whose member `kind` says which one it is, followed by its fields in order.

* `Body` is what is left of the object, or of the array form, without the kind.
* `Body.toNotice` picks the fields out of it. Members of other names are ignored.
* `Notice.ofJson` reads a notice: all of the text first, then the fields.
-/

namespace FileWarden
namespace Notice

open Json

/-- Which notice it is. -/
inductive Kind where
  | violation
  | blocked
  deriving DecidableEq, Repr

namespace Kind

/-- The name of a kind. -/
def name : Kind → String
  | .violation => "violation"
  | .blocked => "blocked"

/-- The kind of a name. -/
def ofName (s : String) : Except Reason Kind :=
  if s = Kind.violation.name then .ok .violation
  else if s = Kind.blocked.name then .ok .blocked
  else .error (.unknownVariant s [Kind.violation.name, Kind.blocked.name])

/-- The kind that was found by its name. -/
def ofFound : Found → Except Reason Kind
  | .string s => ofName s
  | f => .error (.wrongType f "variant identifier")

/-- The kind that was found by its name or its number. -/
def ofFoundOrIndex : Found → Except Reason Kind
  | .number (.whole n) =>
    if n = 0 then .ok .violation
    else if n = 1 then .ok .blocked
    else if 0 < n then .error (.wrongValue (.number (.whole n)) "variant index 0 <= i < 2")
    else .error (.wrongType (.number (.whole n)) "variant identifier")
  | f => ofFound f

end Kind

/-- A notice without its kind: the members of an object, or the items of an array. -/
inductive Body where
  | members (ms : List (String × Value))
  | items (vs : List Value)
  deriving Repr

/-! ## Fields -/

/-- The fields of a notice that were read so far. -/
structure Draft where
  pid : Option Pid
  comm : Option String
  path : Option String
  count : Option Count
  threshold : Option Count
  deriving DecidableEq, Repr

namespace Draft

/-- No field was read. -/
def empty : Draft := ⟨none, none, none, none, none⟩

/-- The value of a field that may occur once. -/
def once {α : Type} (name : String) (before : Option α) (type : Found → Except Reason α)
    (v : Value) : Except Reason α :=
  if before.isSome then .error (.duplicateField name) else type v.found

/-- Takes a member into the fields that a notice of this kind has. -/
def take (kind : Kind) (d : Draft) (m : String × Value) : Except Reason Draft :=
  match kind, m.1 with
  | _, "pid" => (once m.1 d.pid Found.u32 m.2).map fun v => { d with pid := some v }
  | _, "comm" => (once m.1 d.comm Found.text m.2).map fun v => { d with comm := some v }
  | .violation, "path" => (once m.1 d.path Found.text m.2).map fun v => { d with path := some v }
  | _, "count" => (once m.1 d.count Found.u32 m.2).map fun v => { d with count := some v }
  | .violation, "threshold" =>
    (once m.1 d.threshold Found.u32 m.2).map fun v => { d with threshold := some v }
  | _, _ => .ok d

/-- The notice of the fields; the first that is missing is at fault. -/
def toNotice (kind : Kind) (d : Draft) : Except Reason Notice :=
  match kind with
  | .violation => do
    let pid ← required "pid" d.pid
    let comm ← required "comm" d.comm
    let path ← required "path" d.path
    let count ← required "count" d.count
    let threshold ← required "threshold" d.threshold
    return .violation pid comm path count threshold
  | .blocked => do
    let pid ← required "pid" d.pid
    let comm ← required "comm" d.comm
    let count ← required "count" d.count
    return .blocked pid comm count

end Draft

/-- The names of the fields of a kind, in order. -/
def Kind.fields : Kind → List String
  | .violation => ["pid", "comm", "path", "count", "threshold"]
  | .blocked => ["pid", "comm", "count"]

/-- What a kind is called where its array form has the wrong length. -/
def Kind.arrayForm : Kind → String
  | .violation => "struct variant Notice::Violation with 5 elements"
  | .blocked => "struct variant Notice::Blocked with 3 elements"

/-- The notice of a kind and a body. An array is read like the object of the fields in order, and
must have as many items as there are fields. -/
def Body.toNotice (kind : Kind) : Body → Except Reason Notice
  | .members ms => do (← ms.foldlM (Draft.take kind) .empty).toNotice kind
  | .items vs => do
    let d ← (kind.fields.zip vs).foldlM (Draft.take kind) .empty
    if vs.length < kind.fields.length then .error (.wrongLength vs.length kind.arrayForm)
    else
      let n ← d.toNotice kind
      if kind.fields.length < vs.length then
        .error (.wrongLength vs.length (toString kind.fields.length ++ " elements in sequence"))
      else return n

/-! ## Reading -/

/-- Reads a member: the kind into the first part of the state, any other member in front of those
before it. -/
def member (s : Option Kind × List (String × Value)) (key : String) :
    Reader (Option Kind × List (String × Value)) := fun cs =>
  if key = "kind" then do
    let (kind, rest) ← field key s.1 Kind.ofFound cs
    return ((some kind, s.2), rest)
  else do
    let (v, rest) ← value (maxDepth - 1) (← colon cs)
    return ((s.1, (key, v) :: s.2), rest)

/-- Reads the kind and the body of a notice. -/
def bodyReader : Reader (Kind × Body) := fun cs =>
  match skipBlanks cs with
  | '\x7b' :: cs => do
    let ((kind, ms), rest) ← members member (cs.length + 1) true (none, []) cs
    match kind with
    | some kind => return ((kind, .members ms.reverse), rest)
    | none => .error (.here (.missingField "kind") rest)
  | '[' :: cs => do
    match ← toItem true cs with
    | (true, rest) =>
      let (kind, rest) ← scalar Kind.ofFound rest
      let (vs, rest) ← items (value (maxDepth - 1)) (rest.length + 1) false rest
      return ((kind, .items vs), rest)
    | (false, rest) => .error (.here (.missingField "kind") rest)
  | cs => scalar (fun f => .error (.wrongType f "internally tagged enum Notice")) cs

/-- The notice that a JSON text stands for. -/
def ofJson (text : String) : Except Json.Error Notice :=
  parse (fun cs => (bodyReader cs).map fun ((kind, body), rest) => (body.toNotice kind, rest)) text

/-! ## Writing -/

/-- The members of a notice in order, the kind first. -/
def toMembers : Notice → List (String × List Char)
  | .violation pid comm path count threshold => [
    ("kind", writeString Kind.violation.name),
    ("pid", writeNat pid.toNat),
    ("comm", writeString comm),
    ("path", writeString path),
    ("count", writeNat count.toNat),
    ("threshold", writeNat threshold.toNat)]
  | .blocked pid comm count => [
    ("kind", writeString Kind.blocked.name),
    ("pid", writeNat pid.toNat),
    ("comm", writeString comm),
    ("count", writeNat count.toNat)]

/-- The JSON text of a notice. -/
def toJson (n : Notice) : String := String.ofList (writeObject n.toMembers)

end Notice
end FileWarden
