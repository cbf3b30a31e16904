import TreeWalk.Decimal.Layout
import TreeWalk.Json.Quoted

/-! Writing a JSON value, on one line or spread over lines with two blanks per level. A double that
is not finite has no JSON text and becomes `null`. -/

namespace TreeWalk.Json

def writeInt (n : Int) : List Char := if n < 0 then '-' :: Nat.toDigits 10 n.natAbs else Nat.toDigits 10 n.toNat

def writeDouble (x : Float) : List Char :=
  if x.isFinite then (Decimal.Layout.compact.render x).toList else ['n', 'u', 'l', 'l']

mutual

/-- A value on one line. -/
def writeCompact : Json → List Char
  | .null => ['n', 'u', 'l', 'l']
  | .bool true => ['t', 'r', 'u', 'e']
  | .bool false => ['f', 'a', 'l', 's', 'e']
  | .integer n => writeInt n
  | .double x => writeDouble x
  | .string s => quote s
  | .array items => '[' :: (writeItems items ++ [']'])
  | .object members => '\x7b' :: (writeMembers members ++ ['\x7d'])

def writeItems : List Json → List Char
  | [] => []
  | [item] => writeCompact item
  | item :: rest => writeCompact item ++ ',' :: writeItems rest

def writeMembers : List (String × Json) → List Char
  | [] => []
  | [(key, value)] => quote key ++ ':' :: writeCompact value
  | (key, value) :: rest => quote key ++ ':' :: (writeCompact value ++ ',' :: writeMembers rest)

end

/-- A new line, indented to a level. -/
def newLine (level : Nat) : List Char := '\n' :: List.replicate (2 * level) ' '

mutual

/-- A value spread over lines, inside `level` brackets and braces. -/
def writePretty (level : Nat) : Json → List Char
  | .null => ['n', 'u', 'l', 'l']
  | .bool true => ['t', 'r', 'u', 'e']
  | .bool false => ['f', 'a', 'l', 's', 'e']
  | .integer n => writeInt n
  | .double x => writeDouble x
  | .string s => quote s
  | .array [] => ['[', ']']
  | .array (item :: rest) =>
    '[' :: (newLine (level + 1) ++ writePretty (level + 1) item ++ writePrettyItems level rest)
  | .object [] => ['\x7b', '\x7d']
  | .object ((key, value) :: rest) =>
    '\x7b' :: (newLine (level + 1) ++ quote key ++ ':' :: ' ' :: writePretty (level + 1) value ++
      writePrettyMembers level rest)

/-- The items after the first one and the closing bracket. -/
def writePrettyItems (level : Nat) : List Json → List Char
  | [] => newLine level ++ [']']
  | item :: rest =>
    ',' :: (newLine (level + 1) ++ writePretty (level + 1) item ++ writePrettyItems level rest)

/-- The members after the first one and the closing brace. -/
def writePrettyMembers (level : Nat) : List (String × Json) → List Char
  | [] => newLine level ++ ['\x7d']
  | (key, value) :: rest =>
    ',' :: (newLine (level + 1) ++ quote key ++ ':' :: ' ' :: writePretty (level + 1) value ++
      writePrettyMembers level rest)

end

/-- A value on one line. -/
def compact (j : Json) : String := String.ofList j.writeCompact

/-- A value spread over lines. -/
def pretty (j : Json) : String := String.ofList (j.writePretty 0)

end TreeWalk.Json
