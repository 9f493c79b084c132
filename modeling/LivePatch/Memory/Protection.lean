/-!
# Page protections

What may be done with a page: read it, write it, execute it. `describe` is the text of a protection in the records of the
engine, which names every named combination that the protection includes.
-/

namespace LivePatch

/-- The access that a page grants. -/
structure Protection where
  read : Bool := false
  write : Bool := false
  execute : Bool := false
  deriving DecidableEq, Repr

namespace Protection

/-- No access. -/
def noAccess : Protection := {}

/-- Reading alone. -/
def readOnly : Protection := { read := true }

/-- Writing alone. -/
def writeOnly : Protection := { write := true }

/-- Execution alone. -/
def executeOnly : Protection := { execute := true }

/-- Reading and execution: the protection of code that runs. -/
def readExecute : Protection := { read := true, execute := true }

/-- Reading and writing: the protection of data, and of code while it is changed. -/
def readWrite : Protection := { read := true, write := true }

/-- Writing and execution. -/
def writeExecute : Protection := { write := true, execute := true }

/-- All access. -/
def readWriteExecute : Protection := { read := true, write := true, execute := true }

/-- Whether every access of `needed` is granted. -/
def allows (granted needed : Protection) : Bool :=
  (granted.read || !needed.read) && (granted.write || !needed.write) && (granted.execute || !needed.execute)

/-- The named combinations, in the order in which a description lists them. -/
def named : List (String × Protection) :=
  [("READ", readOnly), ("WRITE", writeOnly), ("EXECUTE", executeOnly), ("READ_EXECUTE", readExecute),
    ("READ_WRITE", readWrite), ("READ_WRITE_EXECUTE", readWriteExecute), ("WRITE_EXECUTE", writeExecute)]

/-- The names of all combinations that the protection includes, or `NONE`. -/
def describe (protection : Protection) : String :=
  match (named.filter (protection.allows ·.2)).map (·.1) with
  | [] => "NONE"
  | names => " | ".intercalate names

example : noAccess.describe = "NONE" := by decide +kernel

example : readExecute.describe = "READ | EXECUTE | READ_EXECUTE" := by decide +kernel

example : readWriteExecute.describe =
    "READ | WRITE | EXECUTE | READ_EXECUTE | READ_WRITE | READ_WRITE_EXECUTE | WRITE_EXECUTE" := by decide +kernel

end Protection

end LivePatch
