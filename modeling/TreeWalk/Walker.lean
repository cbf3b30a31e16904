import TreeWalk.Tree.Basic

/-! Visitors that walk. A visitor has a visit for each sort of node, and the default walk visits what is
directly below a node, in source order. A visit of the visitor's own that ends with the default walk goes
through the whole tree. -/

namespace TreeWalk

/-- What a visitor does at a statement, at the body of a function or a loop, which is a block but not a
statement, and at an expression. -/
structure Walker (m : Type → Type) where
  stmt : Stmt → m Unit
  body : List Stmt → Line → m Unit
  expr : Expr → m Unit

namespace Walker

variable {m : Type → Type} [Monad m] (v : Walker m)

/-- Visits what is directly below an expression. -/
def walkExpr : Expr → m Unit
  | .literal _ _ | .access _ _ => pure ()
  | .grouping e _ | .unary _ e _ | .assign _ e _ => v.expr e
  | .binary a _ b _ | .logical a _ b _ => do
    v.expr a
    v.expr b
  | .call _ es _ => es.forM v.expr

/-- Visits statements in order. -/
def walkBody (ss : List Stmt) : m Unit := ss.forM v.stmt

def walkOption : Option Stmt → m Unit
  | none => pure ()
  | some s => v.stmt s

def walkOptionExpr : Option Expr → m Unit
  | none => pure ()
  | some e => v.expr e

/-- Visits what is directly below a statement. The body of a function or a loop is visited as such. -/
def walkStmt : Stmt → m Unit
  | .function _ _ _ body k _ => v.body body k
  | .block ss _ => v.walkBody ss
  | .expression e _ | .print e _ => v.expr e
  | .branch c s o _ => do
    v.expr c
    v.stmt s
    v.walkOption o
  | .declare _ _ e _ | .ret e _ => v.walkOptionExpr e
  | .loop c body k _ => do
    v.expr c
    v.body body k

end Walker

end TreeWalk
