import TreeWalk.Tree.Decode

/-! Trees as JSON values: every record is an object with its fields in order of declaration, a node
starts with its tag, and what is absent is null. -/

namespace TreeWalk

def Line.toJson (line : Line) : Json := .integer line.toNat

def Ty.toJson (type : Ty) : Json := .string type.tag

def Value.toJson : Value → Json
  | .integer n => .object [("integer", .integer n.toInt)]
  | .double x => .object [("double", .double x)]
  | .boolean b => .object [("boolean", .bool b)]
  | .string s => .object [("string", .string s)]
  | .null => .string "null"

def Parameter.toJson (p : Parameter) : Json :=
  .object [("name", .string p.name), ("param_type", p.type.toJson), ("line", p.line.toJson)]

def nodeJson (tag : String) (fields : List (String × Json)) : Json :=
  .object ((tagKey, .string tag) :: fields)

mutual

def Expr.toJson : Expr → Json
  | .literal value line => nodeJson "literal" [("value", value.toJson), ("line", line.toJson)]
  | .grouping inner line => nodeJson "grouping" [("expression", inner.toJson), ("line", line.toJson)]
  | .unary op operand line =>
    nodeJson "unary" [("operator", .string op), ("operand", operand.toJson), ("line", line.toJson)]
  | .binary left op right line =>
    nodeJson "binary"
      [("left", left.toJson), ("operator", .string op), ("right", right.toJson), ("line", line.toJson)]
  | .logical left op right line =>
    nodeJson "logical"
      [("left", left.toJson), ("operator", .string op), ("right", right.toJson), ("line", line.toJson)]
  | .access name line => nodeJson "variable" [("name", .string name), ("line", line.toJson)]
  | .assign name value line =>
    nodeJson "assignment" [("name", .string name), ("value", value.toJson), ("line", line.toJson)]
  | .call callee arguments line =>
    nodeJson "call"
      [("callee", .string callee), ("arguments", .array (Expr.listToJson arguments)), ("line", line.toJson)]

def Expr.listToJson : List Expr → List Json
  | [] => []
  | e :: es => e.toJson :: Expr.listToJson es

end

def Expr.optionToJson : Option Expr → Json
  | none => .null
  | some e => e.toJson

mutual

def Stmt.toJson : Stmt → Json
  | .function name returnType parameters body bodyLine line =>
    nodeJson "function"
      [("name", .string name), ("return_type", returnType.toJson),
        ("parameters", .array (parameters.map Parameter.toJson)),
        ("body", .object [("statements", .array (Stmt.listToJson body)), ("line", bodyLine.toJson)]),
        ("line", line.toJson)]
  | .block statements line =>
    nodeJson "block" [("statements", .array (Stmt.listToJson statements)), ("line", line.toJson)]
  | .expression expr line => nodeJson "expression" [("expression", expr.toJson), ("line", line.toJson)]
  | .branch condition thenBranch elseBranch line =>
    nodeJson "if"
      [("condition", condition.toJson), ("then_branch", thenBranch.toJson),
        ("else_branch", Stmt.optionToJson elseBranch), ("line", line.toJson)]
  | .print expr line => nodeJson "print" [("expression", expr.toJson), ("line", line.toJson)]
  | .declare name type initializer line =>
    nodeJson "variable"
      [("name", .string name), ("var_type", type.toJson),
        ("initializer", Expr.optionToJson initializer), ("line", line.toJson)]
  | .loop condition body bodyLine line =>
    nodeJson "while"
      [("condition", condition.toJson),
        ("body", .object [("statements", .array (Stmt.listToJson body)), ("line", bodyLine.toJson)]),
        ("line", line.toJson)]
  | .ret value line => nodeJson "return" [("value", Expr.optionToJson value), ("line", line.toJson)]

def Stmt.listToJson : List Stmt → List Json
  | [] => []
  | s :: ss => s.toJson :: Stmt.listToJson ss

def Stmt.optionToJson : Option Stmt → Json
  | none => .null
  | some s => s.toJson

end

/-- A program as a JSON value. -/
def Program.toJson (program : Program) : Json :=
  .object [("statements", .array (Stmt.listToJson program))]

/-- The text in which a program is stored. -/
def Program.save (program : Program) : String := (Program.toJson program).pretty

end TreeWalk
