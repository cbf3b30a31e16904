import TreeWalk.Value

/-! Syntax trees of a small imperative language. Every node carries the source line it starts on, and
so does the body of a function or of a loop, which is a block but not a statement of its own. -/

namespace TreeWalk

/-- A source line, counted from one; zero stands for no line. -/
abbrev Line := UInt32

/-- An expression. Operators are kept as written, whether they are known or not. -/
inductive Expr where
  | literal (value : Value) (line : Line)
  | grouping (inner : Expr) (line : Line)
  | unary (op : String) (operand : Expr) (line : Line)
  | binary (left : Expr) (op : String) (right : Expr) (line : Line)
  | logical (left : Expr) (op : String) (right : Expr) (line : Line)
  | access (name : String) (line : Line)
  | assign (name : String) (value : Expr) (line : Line)
  | call (callee : String) (arguments : List Expr) (line : Line)

/-- A parameter of a function. -/
structure Parameter where
  name : String
  type : Ty
  line : Line
deriving DecidableEq, Repr

/-- A statement. -/
inductive Stmt where
  | function (name : String) (returnType : Ty) (parameters : List Parameter)
      (body : List Stmt) (bodyLine : Line) (line : Line)
  | block (statements : List Stmt) (line : Line)
  | expression (expr : Expr) (line : Line)
  | branch (condition : Expr) (thenBranch : Stmt) (elseBranch : Option Stmt) (line : Line)
  | print (expr : Expr) (line : Line)
  | declare (name : String) (type : Ty) (initializer : Option Expr) (line : Line)
  | loop (condition : Expr) (body : List Stmt) (bodyLine : Line) (line : Line)
  | ret (value : Option Expr) (line : Line)

/-- The statements of one source file. -/
abbrev Program := List Stmt

namespace Expr

def line : Expr → Line
  | .literal _ l | .grouping _ l | .unary _ _ l | .binary _ _ _ l | .logical _ _ _ l
  | .access _ l | .assign _ _ l | .call _ _ l => l

def isLiteral : Expr → Bool
  | .literal _ _ => true
  | _ => false

end Expr

namespace Stmt

def line : Stmt → Line
  | .function _ _ _ _ _ l | .block _ l | .expression _ l | .branch _ _ _ l | .print _ l
  | .declare _ _ _ l | .loop _ _ _ l | .ret _ l => l

def isFunction : Stmt → Bool
  | .function .. => true
  | _ => false

end Stmt

end TreeWalk
