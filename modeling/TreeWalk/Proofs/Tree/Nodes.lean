import TreeWalk.Tree.Kind
import TreeWalk.Walk
import TreeWalk.Proofs.Tree.Induction

/-! Nodes met on a walk, told apart: its expressions, its statements and the kinds of both. A body is
none of these. -/

namespace TreeWalk.Node

/-! ### Expressions -/

def expr? : Node → Option Expr
  | .expr e => some e
  | _ => none

/-- All expressions among nodes. -/
def exprs (nodes : List Node) : List Expr := nodes.filterMap expr?

@[simp] theorem exprs_nil : exprs [] = [] := rfl

@[simp] theorem exprs_append (ns ms : List Node) : exprs (ns ++ ms) = exprs ns ++ exprs ms :=
  List.filterMap_append

@[simp] theorem exprs_expr_cons (e : Expr) (ns : List Node) : exprs (.expr e :: ns) = e :: exprs ns :=
  rfl

@[simp] theorem exprs_stmt_cons (s : Stmt) (ns : List Node) : exprs (.stmt s :: ns) = exprs ns := rfl

@[simp] theorem exprs_body_cons (ss : List Stmt) (l : Line) (ns : List Node) :
    exprs (.body ss l :: ns) = exprs ns := rfl

/-! ### Statements -/

def stmt? : Node → Option Stmt
  | .stmt s => some s
  | _ => none

/-- All statements among nodes. -/
def stmts (nodes : List Node) : List Stmt := nodes.filterMap stmt?

@[simp] theorem stmts_nil : stmts [] = [] := rfl

@[simp] theorem stmts_append (ns ms : List Node) : stmts (ns ++ ms) = stmts ns ++ stmts ms :=
  List.filterMap_append

@[simp] theorem stmts_stmt_cons (s : Stmt) (ns : List Node) : stmts (.stmt s :: ns) = s :: stmts ns := rfl

@[simp] theorem stmts_body_cons (ss : List Stmt) (l : Line) (ns : List Node) :
    stmts (.body ss l :: ns) = stmts ns := rfl

@[simp] theorem stmts_expr_cons (e : Expr) (ns : List Node) : stmts (.expr e :: ns) = stmts ns := rfl

theorem stmts_walkList {es : List Expr} (h : ∀ e ∈ es, stmts e.walk = []) :
    stmts (Expr.walkList es) = [] := by
  induction es with
  | nil => rfl
  | cons e rest ih =>
    rw [Expr.walkList, stmts_append, h e List.mem_cons_self,
      ih fun e he => h e (List.mem_cons_of_mem _ he), List.nil_append]

@[simp] theorem stmts_walk (e : Expr) : stmts e.walk = [] := by
  induction e using Expr.induct with
  | literal v l | access x l => rfl
  | grouping e l ih | unary op e l ih | assign x e l ih => simp [Expr.walk, ih]
  | binary a op b l iha ihb | logical a op b l iha ihb => simp [Expr.walk, iha, ihb]
  | call f es l ih => simp [Expr.walk, stmts_walkList ih]

@[simp] theorem stmts_walkOption (e : Option Expr) : stmts (Expr.walkOption e) = [] := by
  cases e with
  | none => rfl
  | some e => exact stmts_walk e

/-! ### Kinds -/

/-- The kind of a node. A body has none. -/
def kind? : Node → Option NodeKind
  | .stmt s => some (.stmt s.kind)
  | .body _ _ => none
  | .expr e => some (.expr e.kind)

def kinds (nodes : List Node) : List NodeKind := nodes.filterMap kind?

@[simp] theorem kinds_nil : kinds [] = [] := rfl

@[simp] theorem kinds_append (ns ms : List Node) : kinds (ns ++ ms) = kinds ns ++ kinds ms :=
  List.filterMap_append

@[simp] theorem kinds_stmt_cons (s : Stmt) (ns : List Node) :
    kinds (.stmt s :: ns) = .stmt s.kind :: kinds ns := rfl

@[simp] theorem kinds_body_cons (ss : List Stmt) (l : Line) (ns : List Node) :
    kinds (.body ss l :: ns) = kinds ns := rfl

@[simp] theorem kinds_expr_cons (e : Expr) (ns : List Node) :
    kinds (.expr e :: ns) = .expr e.kind :: kinds ns := rfl

end TreeWalk.Node
