import TreeWalk.Decimal.Layout

/-! The values of the language and the types a declaration can name. A value is displayed as source
text: a double always has a point, a double that is not finite is the division that produces it, and a
string is quoted with five characters escaped. -/

namespace TreeWalk

/-- The built-in types. -/
inductive Ty where
  | integer
  | double
  | boolean
  | string
  | null
  | void
deriving DecidableEq, Repr

namespace Ty

def all : List Ty := [.integer, .double, .boolean, .string, .null, .void]

/-- The word for a type in source text. -/
def keyword : Ty → String
  | .integer => "int"
  | .double => "double"
  | .boolean => "bool"
  | .string => "string"
  | .null => "null"
  | .void => "void"

/-- The word for a type in a stored tree. -/
def tag : Ty → String
  | .integer => "integer"
  | .double => "double"
  | .boolean => "boolean"
  | .string => "string"
  | .null => "null"
  | .void => "void"

def isNumeric : Ty → Bool
  | .integer | .double => true
  | _ => false

end Ty

/-- A literal value or the result of a constant expression. -/
inductive Value where
  | integer (n : Int64)
  | double (x : Float)
  | boolean (b : Bool)
  | string (s : String)
  | null

namespace Value

def type : Value → Ty
  | .integer _ => .integer
  | .double _ => .double
  | .boolean _ => .boolean
  | .string _ => .string
  | .null => .null

/-- How a character of a string literal is written. -/
def escape (c : Char) : List Char :=
  if c = '\\' then ['\\', '\\']
  else if c = '"' then ['\\', '"']
  else if c = '\n' then ['\\', 'n']
  else if c = '\r' then ['\\', 'r']
  else if c = '\t' then ['\\', 't']
  else [c]

def displayString (s : String) : String :=
  String.ofList ('"' :: (s.toList.flatMap escape ++ ['"']))

def displayDouble (x : Float) : String :=
  if x.isNaN then "(0.0 / 0.0)"
  else if x.isInf then if x > 0 then "(1.0 / 0.0)" else "(-1.0 / 0.0)"
  else Decimal.Layout.plain.render x

/-- The decimal text of an integer. -/
def displayInt (n : Int) : String :=
  String.ofList (if n < 0 then '-' :: Nat.toDigits 10 n.natAbs else Nat.toDigits 10 n.toNat)

/-- A value as source text. -/
def display : Value → String
  | .integer n => displayInt n.toInt
  | .double x => displayDouble x
  | .boolean true => "true"
  | .boolean false => "false"
  | .string s => displayString s
  | .null => "null"

/-- Equality of values of one type; doubles compare as numbers. -/
def same : Value → Value → Bool
  | .integer a, .integer b => a == b
  | .double a, .double b => a == b
  | .boolean a, .boolean b => a == b
  | .string a, .string b => a == b
  | .null, .null => true
  | _, _ => false

end Value

end TreeWalk
