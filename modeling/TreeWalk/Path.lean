/-! Paths as texts: the directory of a path and a name in a directory. A path is cut at its slashes;
empty parts and dots count for nothing, except a dot at the start. -/

namespace TreeWalk.Path

/-- Cuts at slashes; `current` is the part being read, last character first. -/
def cut (current : List Char) : List Char → List String
  | [] => [String.ofList current.reverse]
  | c :: cs => if c = '/' then String.ofList current.reverse :: cut [] cs else cut (c :: current) cs

/-- The parts of a path between its slashes. -/
def parts (path : String) : List String := cut [] path.toList

/-- Drops the parts at the end that count for nothing; the parts come last first. -/
def dropIdle : List String → List String
  | [] => []
  | [first] => [first]
  | part :: rest => if part = "" ∨ part = "." then dropIdle rest else part :: rest

/-- The text of parts that come last first. -/
def ofParts (reversed : List String) : String :=
  match reversed with
  | [""] => "/"
  | parts => String.intercalate "/" parts.reverse

/-- The directory of a path; nothing for the root and for the empty path. -/
def parent? (path : String) : Option String :=
  match dropIdle (parts path).reverse with
  | [] | [""] => none
  | [_] => some ""
  | _ :: rest => some (ofParts (dropIdle rest))

/-- A name in a directory. -/
def join (directory name : String) : String :=
  if directory.isEmpty then name
  else if directory.toList.getLast? = some '/' then directory ++ name
  else directory ++ "/" ++ name

/-- The directory to look into for what belongs to a file. -/
def directoryOf (path : String) : String :=
  match parent? path with
  | none | some "" => "."
  | some directory => directory

end TreeWalk.Path
