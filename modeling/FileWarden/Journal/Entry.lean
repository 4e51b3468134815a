import FileWarden.Notice.Json

/-!
# Journal entries

A journal entry is a notice with the time at which it was written. Its JSON form is the object of
the notice with a member `ts` in front; on reading, `ts` may stand anywhere. A line is an entry and
the end of the line.
-/

namespace FileWarden

open Json

/-- A notice and the time at which it was written. -/
structure JournalEntry where
  ts : String
  notice : Notice
  deriving DecidableEq, Repr

namespace JournalEntry

/-! ## Reading -/

/-- Reads a member: the time into the first part of the state, any other member in front of those
before it. -/
def member (s : Option String × List (String × Value)) (key : String) :
    Reader (Option String × List (String × Value)) := fun cs =>
  if key = "ts" then do
    let (ts, rest) ← field key s.1 Found.text cs
    return ((some ts, s.2), rest)
  else do
    let (v, rest) ← value (maxDepth - 1) (← colon cs)
    return ((s.1, (key, v) :: s.2), rest)

/-- Takes a member: the kind, which may occur once, or any other. -/
def takeKind (s : Option Notice.Kind × List (String × Value)) (m : String × Value) :
    Except Reason (Option Notice.Kind × List (String × Value)) :=
  if m.1 = "kind" then
    (Notice.Draft.once m.1 s.1 Notice.Kind.ofFoundOrIndex m.2).map fun kind => (some kind, s.2)
  else .ok (s.1, s.2 ++ [m])

/-- The notice among the members of an entry. -/
def noticeOf (ms : List (String × Value)) : Except Reason Notice := do
  let (kind, ms) ← ms.foldlM takeKind (none, [])
  (Notice.Body.members ms).toNotice (← required "kind" kind)

/-- The entry of the members that were read. -/
def ofMembers (ts : Option String) (ms : List (String × Value)) : Except Reason JournalEntry := do
  let ts ← required "ts" ts
  return ⟨ts, ← noticeOf ms⟩

/-- Reads an entry. What is wrong with its members is at fault behind the object. -/
def reader : Reader JournalEntry := fun cs =>
  match skipBlanks cs with
  | '\x7b' :: cs => do
    let ((ts, ms), rest) ← members member (cs.length + 1) true (none, []) cs
    match ofMembers ts ms.reverse with
    | .ok e => return (e, rest)
    | .error r => .error (.here r rest)
  | cs => scalar (fun f => .error (.wrongType f "struct JournalEntry")) cs

/-- The entry that a JSON text stands for. -/
def ofJson (text : String) : Except Json.Error JournalEntry :=
  parse (fun cs => (reader cs).map fun (e, rest) => (.ok e, rest)) text

/-! ## Writing -/

/-- The JSON text of an entry. -/
def toJson (e : JournalEntry) : String :=
  String.ofList (writeObject (("ts", writeString e.ts) :: e.notice.toMembers))

/-- The line of an entry. -/
def line (e : JournalEntry) : String := e.toJson ++ "\n"

end JournalEntry
end FileWarden
