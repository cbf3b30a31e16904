import TreeWalk.Census
import TreeWalk.Disk
import TreeWalk.Folder
import TreeWalk.Settings
import TreeWalk.Tree.Load

/-! What a run does with files: settings are looked up next to the tree unless a path is given, and the
tree is loaded before a pass runs over it. -/

namespace TreeWalk

/-- Why a run fails. -/
inductive RunError where
  | io (path : String) (cause : IoError)
  | tree (path : String) (cause : LoadError)
  | settings (path : String) (cause : SettingsError)
  /-- The check found faults. -/
  | check (count : Nat)
  | channel (cause : Unbalanced)

/-- What is wrong with a text. Where the flaw stands and how the reader of the grammar words it is not kept;
its kind stands for that. -/
def LoadError.message : LoadError → String
  | .flaw .malformed => "malformed text"
  | .flaw .truncated => "unexpected end of text"
  | .mismatch m => m.message

namespace RunError

/-- The file that an error is about. -/
def path? : RunError → Option String
  | .io path _ | .tree path _ | .settings path _ => some path
  | .check _ | .channel _ => none

/-- An error in words, without the position of a flaw in a tree and without the reason why settings are not
readable. -/
def message : RunError → String
  | .io path cause => "I/O error: " ++ path ++ ": " ++ cause.text
  | .tree path cause => "Tree error: " ++ path ++ ": " ++ cause.message
  | .settings path .unreadable => "Config error: invalid " ++ path
  | .settings _ cause => "Config error: " ++ cause.message
  | .check count => toString count ++ " error(s) found"
  | .channel cause => cause.message

/-- An error as a line of text. -/
def report (e : RunError) : String :=
  match e.path? with
  | some path => "error [" ++ path ++ "]: " ++ e.message ++ "\n"
  | none => "error: " ++ e.message ++ "\n"

end RunError

/-- The name of a settings file. -/
def settingsName : String := "pulsar.toml"

/-- The text in the bytes of a file. -/
def textOfBytes (path : String) (bytes : ByteArray) : Except RunError String :=
  match String.fromUTF8? bytes with
  | some text => .ok text
  | none => .error (.io path .notText)

def settingsOfBytes (path : String) (bytes : ByteArray) : Except RunError Settings := do
  match Settings.ofText (← textOfBytes path bytes) with
  | .ok settings => .ok settings
  | .error e => .error (.settings path e)

def programOfBytes (path : String) (bytes : ByteArray) : Except RunError Program := do
  match Program.load (← textOfBytes path bytes) with
  | .ok program => .ok program
  | .error e => .error (.tree path e)

namespace Disk

variable {m : Type → Type} [Monad m] (disk : Disk m)

/-- The bytes of a file. -/
def bytes (path : String) : m (Except RunError ByteArray) := do
  match ← disk.read path with
  | .ok bytes => return .ok bytes
  | .error e => return .error (.io path e)

def text (path : String) : m (Except RunError String) := do
  return (← disk.bytes path).bind (textOfBytes path)

/-- The settings in a file that has to be there. -/
def loadSettings (path : String) : m (Except RunError Settings) := do
  return (← disk.bytes path).bind (settingsOfBytes path)

/-- The settings in a directory and where they were found; the usual ones if it has no settings
file. -/
def discoverSettings (directory : String) : m (Except RunError (Settings × Option String)) := do
  let path := Path.join directory settingsName
  if ← disk.isFile path then
    return (← disk.loadSettings path).map fun settings => (settings, some path)
  else
    return .ok ({}, none)

/-- The settings for a run over a tree, from the file given or from the directory of the tree. -/
def resolveSettings (explicit : Option String) (tree : String) : m (Except RunError Settings) := do
  match explicit with
  | some path => disk.loadSettings path
  | none => return (← disk.discoverSettings (Path.directoryOf tree)).map (·.1)

/-- The program stored in a file. -/
def loadProgram (path : String) : m (Except RunError Program) := do
  return (← disk.bytes path).bind (programOfBytes path)

end Disk

end TreeWalk
