import TreeWalk.Arguments
import TreeWalk.Excerpt
import TreeWalk.Project

/-! The command line: a run reads its settings, then the tree, does what the command says and ends with
a status, what it prints and what it complains about. Only a print command with an output path writes
a file, and only when there is something to write. -/

namespace TreeWalk

/-- The end of a run. -/
structure Outcome where
  status : Nat
  out : String := ""
  err : String := ""
deriving DecidableEq, Repr

namespace Outcome

def success (out : String) : Outcome := { status := 0, out }

/-- A failed run, after it may have written complaints. -/
def failure (e : RunError) (complaints : String := "") : Outcome :=
  { status := 1, err := complaints ++ e.report }

end Outcome

/-- Diagnostics as text: an excerpt where the source has the line, the plain text otherwise. -/
def complain (source : Option String) (filename : String) (ds : List Diagnostic) : String :=
  String.join (ds.map fun d =>
    match source.bind fun text => Excerpt.render? text filename d with
    | some excerpt => excerpt
    | none => d.text ++ "\n")

section Run

variable {m : Type → Type} [Monad m] (disk : Disk m)

/-- Prints a program, to a file if one is given. -/
def runPrint (program : Program) (settings : Settings) (output : Option String) : m Outcome := do
  let text := Program.print program settings.width
  match output with
  | none => return .success text
  | some path =>
    match ← disk.write path text.toUTF8 with
    | .ok () => return .success ""
    | .error e => return .failure (.io path e)

/-- Checks a program. The source is read only if there is something to show in it. -/
def runCheck (program : Program) (settings : Settings) (file : String) (source : Option String) :
    m Outcome := do
  let report := Program.check program settings.limit
  if report.isOk then
    return .success ("ok: " ++ toString report.functions.length ++ " function(s) checked\n")
  else
    let fail (text : Option String) : Outcome :=
      .failure (.check report.faults.length) (complain text (source.getD file) report.diagnostics)
    match source with
    | none => return fail none
    | some path =>
      match ← disk.text path with
      | .ok text => return fail (some text)
      | .error e => return .failure e

def runCensus (program : Program) (json : Bool) : Outcome :=
  let report := Program.census program
  .success ((if json then report.toJson.pretty else report.text) ++ "\n")

def runFold (program : Program) : Outcome :=
  .success (String.join ((Program.fold program).map fun f => f.text ++ "\n"))

/-- Does what a command says with the program in its file. -/
def runCommand (program : Program) (settings : Settings) : Command → m Outcome
  | .print _ output => runPrint disk program settings output
  | .check file source => runCheck disk program settings file source
  | .census _ json => return runCensus program json
  | .fold _ => return runFold program

/-- A whole run. -/
def Invocation.run (i : Invocation) : m Outcome := do
  match ← disk.resolveSettings i.settings i.command.file with
  | .error e => return .failure e
  | .ok settings =>
    match ← disk.loadProgram i.command.file with
    | .error e => return .failure e
    | .ok program => runCommand disk program settings i.command

end Run

/-- What the command line calls itself. -/
def versionLine : String := "pulsar 0.1.0\n"

def usageText : String :=
  "usage: pulsar [--config FILE] [-v] COMMAND FILE [OPTIONS]\n" ++
    "commands: print [-o FILE], check [--source FILE], census [--json], fold\n"

def Arguments.Stop.outcome : Arguments.Stop → Outcome
  | .misuse => { status := 2, err := usageText }
  | .version => .success versionLine
  | .help => .success usageText

/-- The command line: the arguments are read, then the run they ask for is made. -/
def commandLine {m : Type → Type} [Monad m] (disk : Disk m) (arguments : List String) : m Outcome :=
  match Arguments.read arguments with
  | .ok invocation => invocation.run disk
  | .error stop => return stop.outcome

end TreeWalk
