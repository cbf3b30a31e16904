/-! JSON values. An integer is kept apart from a double, and the members of an object keep the order
in which they are written, repeated keys included. -/

namespace TreeWalk

/-- A JSON value. -/
inductive Json where
  | null
  | bool (b : Bool)
  | integer (n : Int)
  | double (x : Float)
  | string (s : String)
  | array (items : List Json)
  | object (members : List (String × Json))

namespace Json

/-- What can be wrong with a text that should hold a JSON value. -/
inductive Flaw where
  /-- The text breaks the grammar, a range or the nesting limit. -/
  | malformed
  /-- The text ends where more is required. -/
  | truncated
deriving DecidableEq, Repr

/-- How many brackets and braces may be open at once. -/
def nestingLimit : Nat := 127

def isBlank (c : Char) : Bool := c == ' ' || c == '\t' || c == '\n' || c == '\r'

def skipBlank (cs : List Char) : List Char := cs.dropWhile isBlank

end Json

end TreeWalk
