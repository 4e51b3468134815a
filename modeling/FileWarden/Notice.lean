import FileWarden.Event

/-!
# Notices

What is reported about a process: that it opened a disallowed file, and that it may open no more.
`message` is the line that an operator reads.
-/

namespace FileWarden

/-- A number of violations. -/
abbrev Count := UInt32

/-- A report about a process. -/
inductive Notice where
  /-- The process opened a disallowed file, for the `count`-th time of the `threshold` it has. -/
  | violation (pid : Pid) (comm path : String) (count threshold : Count)
  /-- The process was blocked after `count` violations. -/
  | blocked (pid : Pid) (comm : String) (count : Count)
  deriving DecidableEq, Repr

namespace Notice

/-- The process that a notice is about. -/
def pid : Notice → Pid
  | .violation pid .. => pid
  | .blocked pid .. => pid

/-- The line for the operator. -/
def message : Notice → String
  | .violation pid comm path count threshold =>
    "[VIOLATION " ++ toString count ++ "/" ++ toString threshold ++ "] PID " ++ toString pid ++
      " (" ++ comm ++ ") opened disallowed file: " ++ path
  | .blocked pid _ _ =>
    "*** PID " ++ toString pid ++ " is now BLOCKED from opening any further files! ***"

end Notice
end FileWarden
