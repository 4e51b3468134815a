import FileWarden.Source

/-!
# Scripted sources

A script says beforehand how a source answers its reads. It does not look at the token, but it can
cancel it, and does so when nothing is left to answer. It blocks all but some processes and notes
which it was asked to block; closing it succeeds unless it is told otherwise.
-/

namespace FileWarden

namespace Script

/-- An item of a script: an answer, or the cancelling of the reader's token before the next item. -/
inductive Item where
  | answer (a : Except SourceError Event)
  | cancel

end Script

/-- A script: the items left, the processes it fails to block, the processes it was asked to block,
in order, and why closing fails, if it does. -/
structure Script where
  items : List Script.Item
  failing : List Pid
  calls : List Pid
  closeError : Option String

namespace Script

/-- The answer of the next read, the token after it and the items left. -/
def read (t : Token) : List Item → Except SourceError Event × Token × List Item
  | [] => (.error .cancelled, t.cancel, [])
  | .answer a :: items => (a, t, items)
  | .cancel :: items => read t.cancel items

/-- Reads an event. -/
def next (s : Script) (t : Token) : Reading Script :=
  let (a, t, items) := read t s.items
  ⟨a, t, { s with items }⟩

/-- Blocks a process, unless it is one that the script fails to block. -/
def block (s : Script) (p : Pid) : Except SourceError Unit × Script :=
  (if s.failing.contains p then .error (.block p "map full") else .ok (),
    { s with calls := s.calls ++ [p] })

/-- Closes the source. -/
def close (s : Script) : Except SourceError Unit × Script :=
  (match s.closeError with
    | some reason => .error (.read reason)
    | none => .ok (), s)

/-- Scripts as event sources. -/
def source : Source Script := ⟨next, block, close⟩

/-- As many reads as a script answers before it ends. -/
def reads (s : Script) : Nat := s.items.length + 1

end Script
end FileWarden
