import TreeWalk.Path

/-! Reading and writing files. A disk is whatever can read and write by path and say whether a path leads to
a file; the model of a disk is a map from paths to contents, in which the directories are those that the
paths of the files run through. A write either succeeds or changes nothing. -/

namespace TreeWalk

/-- Why a file could not be read or written. -/
inductive IoError where
  | noEntry
  | notDirectory
  | isDirectory
  | nameTooLong
  /-- The path holds a NUL. -/
  | nulInPath
  | notText
  | other (text : String)
deriving DecidableEq, Repr

def IoError.text : IoError → String
  | .noEntry => "No such file or directory (os error 2)"
  | .notDirectory => "Not a directory (os error 20)"
  | .isDirectory => "Is a directory (os error 21)"
  | .nameTooLong => "File name too long (os error 36)"
  | .nulInPath => "file name contained an unexpected NUL byte"
  | .notText => "stream did not contain valid UTF-8"
  | .other text => text

/-- What can read and write files. -/
structure Disk (m : Type → Type) where
  read : String → m (Except IoError ByteArray)
  /-- Whether a path leads to a file. A path that cannot be followed to its end does not. -/
  isFile : String → m Bool
  write : String → ByteArray → m (Except IoError Unit)

/-- Files by the names on their paths, from the working directory on. -/
structure Files where
  entries : List (List String × ByteArray) := []

namespace Files

/-- What a path leads to. -/
inductive Place where
  | file (names : List String)
  | directory (names : List String)
  /-- A name that is not in a directory that is there. -/
  | absent (names : List String)
  /-- A directory above the working directory. -/
  | outside

def content? (files : Files) (names : List String) : Option ByteArray := files.entries.lookup names

/-- Whether some file lies below a directory. -/
def hasDirectory (files : Files) (names : List String) : Bool :=
  names.isEmpty || files.entries.any fun (path, _) =>
    names.length < path.length && path.take names.length == names

/-- What the names lead to. -/
def placeOf (files : Files) (names : List String) : Place :=
  if (files.content? names).isSome then .file names
  else if files.hasDirectory names then .directory names
  else .absent names

/-- The number of bytes that a name may have. -/
def nameBound : Nat := 255

/-- The number of bytes that a path stays below. -/
def pathBound : Nat := 4096

/-- Follows one part of a path. -/
def step (files : Files) (place : Place) (part : String) : Except IoError Place :=
  match place with
  | .file _ => .error .notDirectory
  | .absent _ => .error .noEntry
  | .directory names =>
    if nameBound < part.utf8ByteSize then .error .nameTooLong
    else if part = "" ∨ part = "." then .ok (.directory names)
    else if part = ".." then .ok (if names.isEmpty then .outside else .directory names.dropLast)
    else .ok (files.placeOf (names ++ [part]))
  | .outside =>
    if nameBound < part.utf8ByteSize then .error .nameTooLong
    else if part = "" ∨ part = "." ∨ part = ".." then .ok .outside
    else .ok (.absent [])

def follow (files : Files) (place : Place) : List String → Except IoError Place
  | [] => .ok place
  | part :: rest => do follow files (← files.step place part) rest

/-- Refuses what can be no path at all. -/
def checkPath (path : String) : Except IoError Unit :=
  if path.isEmpty then .error .noEntry
  else if path.toList.contains '\x00' then .error .nulInPath
  else if pathBound ≤ path.utf8ByteSize then .error .nameTooLong
  else .ok ()

/-- Where a path starts. -/
def startOf (path : String) : Place :=
  if path.toList.head? = some '/' then .outside else .directory []

/-- What a path leads to. -/
def locate (files : Files) (path : String) : Except IoError Place :=
  files.follow (startOf path) (Path.parts path)

def read (files : Files) (path : String) : Except IoError ByteArray := do
  checkPath path
  match ← files.locate path with
  | .file names =>
    match files.content? names with
    | some bytes => .ok bytes
    | none => .error .noEntry
  | .directory _ | .outside => .error .isDirectory
  | .absent _ => .error .noEntry

def isFile (files : Files) (path : String) : Bool :=
  match checkPath path, files.locate path with
  | .ok (), .ok (.file _) => true
  | _, _ => false

/-- Gives the file with the names a content. -/
def put (files : Files) (names : List String) (bytes : ByteArray) : Files :=
  ⟨(names, bytes) :: files.entries.filter (·.1 != names)⟩

/-- A path without the slashes at its end. -/
def withoutSlashes (path : String) : String :=
  String.ofList (path.toList.reverse.dropWhile (· == '/')).reverse

/-- Passes through the directories before the last name of a path. -/
def enter (files : Files) (path : String) : Except IoError Place :=
  files.follow (startOf path) ((Path.parts path).dropLast ++ ["."])

/-- Writes a file. A slash after the last name makes it the name of a directory, whatever has that
name; the directories before it still have to be there. -/
def write (files : Files) (path : String) (bytes : ByteArray) : Except IoError Files := do
  checkPath path
  let stem := withoutSlashes path
  if stem ≠ path then
    let _ ← files.enter stem
    .error .isDirectory
  else
    match ← files.locate path with
    | .file names => .ok (files.put names bytes)
    | .absent [] => .error .noEntry
    | .absent names => .ok (files.put names bytes)
    | .directory _ | .outside => .error .isDirectory

/-- The disk that the files make. -/
def disk : Disk (StateM Files) where
  read path := return (← get).read path
  isFile path := return (← get).isFile path
  write path bytes := do
    match (← get).write path bytes with
    | .ok files =>
      set files
      return .ok ()
    | .error e => return .error e

/-- Files given by their paths. -/
def ofPaths (files : List (String × ByteArray)) : Files :=
  ⟨files.map fun (path, bytes) => (Path.parts path, bytes)⟩

end Files

end TreeWalk
