import TreeWalk.Json.Write
import TreeWalk.Text.Quotes

/-! Why a well-formed JSON value is not a tree, and the words for it. -/

namespace TreeWalk

/-- What was found in place of something else. -/
inductive Shape where
  | null
  | boolean (b : Bool)
  | integer (n : Int)
  | double (x : Float)
  | string (s : String)
  | sequence
  | map
  /-- The bare name of a variant that has a payload. -/
  | bareVariant

/-- What should have been found. -/
inductive Expected where
  | line
  | integer
  | double
  | boolean
  | string
  | sequence
  | record (name : String)
  | node (family : String)
  /-- The tag of a node. -/
  | tag
  /-- The position of a tag among `count` tags. -/
  | tagIndex (count : Nat)
  /-- A variant, by its name or as an object of one member. -/
  | variant
  | oneMember
  /-- The empty payload of a variant without one. -/
  | nothing
  | payload
  /-- All fields of a record written as an array. -/
  | fields (name : String) (count : Nat)
  /-- No item beyond the fields of a record. -/
  | items (count : Nat)

/-- Why a JSON value is not a tree. -/
inductive Mismatch where
  | missingField (name : String)
  | duplicateField (name : String)
  | unknownVariant (name : String) (known : List String)
  | wrongType (found : Shape) (expected : Expected)
  | wrongValue (found : Shape) (expected : Expected)
  | wrongLength (found : Nat) (expected : Expected)

namespace Shape

def ofJson : Json → Shape
  | .null => .null
  | .bool b => .boolean b
  | .integer n => .integer n
  | .double x => .double x
  | .string s => .string s
  | .array _ => .sequence
  | .object _ => .map

def text : Shape → String
  | .null => "null"
  | .boolean b => "boolean `" ++ (if b then "true" else "false") ++ "`"
  | .integer n => "integer `" ++ String.ofList (Json.writeInt n) ++ "`"
  | .double x => "floating point `" ++ String.ofList (Json.writeDouble x) ++ "`"
  | .string s => "string " ++ Text.inQuotes s
  | .sequence => "sequence"
  | .map => "map"
  | .bareVariant => "unit variant"

end Shape

namespace Expected

def elements (count : Nat) : String := toString count ++ if count = 1 then " element" else " elements"

def text : Expected → String
  | .line => "u32"
  | .integer => "i64"
  | .double => "f64"
  | .boolean => "a boolean"
  | .string => "a string"
  | .sequence => "a sequence"
  | .record name => "struct " ++ name
  | .node family => "internally tagged enum " ++ family
  | .tag => "variant identifier"
  | .tagIndex count => "variant index 0 <= i < " ++ toString count
  | .variant => "string or map"
  | .oneMember => "map with a single key"
  | .nothing => "unit"
  | .payload => "newtype variant"
  | .fields name count => "struct " ++ name ++ " with " ++ elements count
  | .items count => elements count ++ " in sequence"

end Expected

namespace Mismatch

def message : Mismatch → String
  | .missingField name => "missing field `" ++ name ++ "`"
  | .duplicateField name => "duplicate field `" ++ name ++ "`"
  | .unknownVariant name known =>
    "unknown variant `" ++ name ++ "`, expected one of " ++
      String.intercalate ", " (known.map fun k => "`" ++ k ++ "`")
  | .wrongType found expected => "invalid type: " ++ found.text ++ ", expected " ++ expected.text
  | .wrongValue found expected => "invalid value: " ++ found.text ++ ", expected " ++ expected.text
  | .wrongLength found expected => "invalid length " ++ toString found ++ ", expected " ++ expected.text

end Mismatch

end TreeWalk
