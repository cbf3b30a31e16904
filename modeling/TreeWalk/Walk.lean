import TreeWalk.Tree.Basic

/-! The nodes of a tree in the order of a walk, each before its children. The body of a function or of
a loop is a node of the walk, although it is no statement. -/

namespace TreeWalk

/-- A node met on a walk. -/
inductive Node where
  | stmt (s : Stmt)
  | body (statements : List Stmt) (line : Line)
  | expr (e : Expr)

mutual

/-- An expression and all expressions in it. -/
def Expr.walk : Expr → List Node
  | .literal v l => [.expr (.literal v l)]
  | .grouping e l => .expr (.grouping e l) :: e.walk
  | .unary o e l => .expr (.unary o e l) :: e.walk
  | .binary a o b l => .expr (.binary a o b l) :: (a.walk ++ b.walk)
  | .logical a o b l => .expr (.logical a o b l) :: (a.walk ++ b.walk)
  | .access x l => [.expr (.access x l)]
  | .assign x e l => .expr (.assign x e l) :: e.walk
  | .call f es l => .expr (.call f es l) :: Expr.walkList es

def Expr.walkList : List Expr → List Node
  | [] => []
  | e :: es => e.walk ++ Expr.walkList es

end

def Expr.walkOption : Option Expr → List Node
  | none => []
  | some e => e.walk

mutual

/-- A statement and all that is in it. -/
def Stmt.walk : Stmt → List Node
  | .function x t ps body k l =>
    .stmt (.function x t ps body k l) :: .body body k :: Stmt.walkList body
  | .block ss l => .stmt (.block ss l) :: Stmt.walkList ss
  | .expression e l => .stmt (.expression e l) :: e.walk
  | .branch c s o l => .stmt (.branch c s o l) :: (c.walk ++ s.walk ++ Stmt.walkOption o)
  | .print e l => .stmt (.print e l) :: e.walk
  | .declare x t e l => .stmt (.declare x t e l) :: Expr.walkOption e
  | .loop c body k l => .stmt (.loop c body k l) :: (c.walk ++ .body body k :: Stmt.walkList body)
  | .ret e l => .stmt (.ret e l) :: Expr.walkOption e

def Stmt.walkList : List Stmt → List Node
  | [] => []
  | s :: ss => s.walk ++ Stmt.walkList ss

def Stmt.walkOption : Option Stmt → List Node
  | none => []
  | some s => s.walk

end

def Expr.event : Expr → String
  | .literal v _ => "literal " ++ v.display
  | .grouping _ _ => "grouping"
  | .unary op _ _ => "unary " ++ op
  | .binary _ op _ _ => "binary " ++ op
  | .logical _ op _ _ => "logical " ++ op
  | .access name _ => "access " ++ name
  | .assign name _ _ => "assignment " ++ name
  | .call callee arguments _ => "call " ++ callee ++ "/" ++ toString arguments.length

def Stmt.event : Stmt → String
  | .function name _ parameters _ _ _ => "function " ++ name ++ "/" ++ toString parameters.length
  | .block _ _ => "block"
  | .expression _ _ => "expression"
  | .branch _ _ _ _ => "if"
  | .print _ _ => "print"
  | .declare name _ _ _ => "variable " ++ name
  | .loop _ _ _ _ => "while"
  | .ret _ _ => "return"

namespace Node

def line : Node → Line
  | .stmt s => s.line
  | .body _ l => l
  | .expr e => e.line

/-- A short description of a node, after its line. -/
def event (node : Node) : String :=
  toString node.line.toNat ++ " " ++ match node with
    | .stmt s => s.event
    | .body _ _ => "block"
    | .expr e => e.event

end Node

end TreeWalk
