import TreeWalk.CommandLine

/-! The program: the command line over the disk of the machine. -/

namespace TreeWalk

/-- The cause that the number of a system error stands for. The system gives it with either sign. -/
def IoError.ofCode? (code : UInt32) : Option IoError :=
  if code = 20 ∨ code = -20 then some .notDirectory
  else if code = 21 ∨ code = -21 then some .isDirectory
  else if code = 36 ∨ code = -36 then some .nameTooLong
  else none

/-- The cause of a failed access to the disk. -/
def IoError.ofSystem (e : IO.Error) : IoError :=
  match e with
  | .noFileOrDirectory .. => .noEntry
  | .inappropriateType _ code _ | .invalidArgument _ code _ =>
    (IoError.ofCode? code).getD (.other (toString e))
  | _ => .other (toString e)

/-- Makes an access to the disk. -/
def attempt {α : Type} (action : IO α) : IO (Except IoError α) := do
  try return .ok (← action)
  catch e => return .error (.ofSystem e)

/-- The disk of the machine. -/
def systemDisk : Disk IO where
  read path := attempt (IO.FS.readBinFile path)
  isFile path := do
    match ← attempt (IO.FS.realPath path) with
    | .error _ => return false
    | .ok _ =>
      match ← attempt (IO.FS.readBinFile path) with
      | .error .isDirectory => return false
      | _ => return true
  write path bytes := attempt (IO.FS.writeBinFile path bytes)

end TreeWalk

def main (arguments : List String) : IO UInt32 := do
  let outcome ← TreeWalk.commandLine TreeWalk.systemDisk arguments
  IO.print outcome.out
  IO.eprint outcome.err
  return outcome.status.toUInt32
