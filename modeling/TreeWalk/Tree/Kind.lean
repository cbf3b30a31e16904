import TreeWalk.Tree.Basic

/-! The kinds of nodes. A kind has a tag, by which a stored tree names it among the statements or
among the expressions, and a name that is unique among all kinds. -/

namespace TreeWalk

inductive StmtKind where
  | function
  | block
  | expression
  | branch
  | print
  | declare
  | loop
  | ret
deriving DecidableEq, Repr

inductive ExprKind where
  | literal
  | grouping
  | unary
  | binary
  | logical
  | access
  | assign
  | call
deriving DecidableEq, Repr

namespace StmtKind

def all : List StmtKind := [.function, .block, .expression, .branch, .print, .declare, .loop, .ret]

def tag : StmtKind → String
  | .function => "function"
  | .block => "block"
  | .expression => "expression"
  | .branch => "if"
  | .print => "print"
  | .declare => "variable"
  | .loop => "while"
  | .ret => "return"

end StmtKind

namespace ExprKind

def all : List ExprKind := [.literal, .grouping, .unary, .binary, .logical, .access, .assign, .call]

def tag : ExprKind → String
  | .literal => "literal"
  | .grouping => "grouping"
  | .unary => "unary"
  | .binary => "binary"
  | .logical => "logical"
  | .access => "variable"
  | .assign => "assignment"
  | .call => "call"

end ExprKind

/-- The kind of a statement or of an expression. -/
inductive NodeKind where
  | stmt (kind : StmtKind)
  | expr (kind : ExprKind)
deriving DecidableEq, Repr

namespace NodeKind

/-- All kinds, statements first. -/
def all : List NodeKind := StmtKind.all.map .stmt ++ ExprKind.all.map .expr

def name : NodeKind → String
  | .stmt .expression => "expression_stmt"
  | .stmt kind => kind.tag
  | .expr .access => "variable_access"
  | .expr kind => kind.tag

/-- The position of a kind among all kinds. -/
def rank (kind : NodeKind) : Nat := all.idxOf kind

def isStmt : NodeKind → Bool
  | .stmt _ => true
  | .expr _ => false

end NodeKind

def Stmt.kind : Stmt → StmtKind
  | .function .. => .function
  | .block .. => .block
  | .expression .. => .expression
  | .branch .. => .branch
  | .print .. => .print
  | .declare .. => .declare
  | .loop .. => .loop
  | .ret .. => .ret

def Expr.kind : Expr → ExprKind
  | .literal .. => .literal
  | .grouping .. => .grouping
  | .unary .. => .unary
  | .binary .. => .binary
  | .logical .. => .logical
  | .access .. => .access
  | .assign .. => .assign
  | .call .. => .call

end TreeWalk
