import TreeWalk.Proofs.Tree.Nodes

/-! All expressions and all statements of a list of statements in source order, each before those in
it. An expression comes before its operands and its arguments, a condition before what it governs and the
branch taken before the other one. Of a function or a loop only the statements of its body are listed.
These are the expressions and the statements of a walk. -/

namespace TreeWalk

/-! ### Expressions -/

mutual

/-- An expression and all expressions in it, each before its operands. -/
def Expr.preorder : Expr → List Expr
  | .literal v l => [.literal v l]
  | .grouping e l => .grouping e l :: e.preorder
  | .unary op e l => .unary op e l :: e.preorder
  | .binary a op b l => .binary a op b l :: (a.preorder ++ b.preorder)
  | .logical a op b l => .logical a op b l :: (a.preorder ++ b.preorder)
  | .access x l => [.access x l]
  | .assign x e l => .assign x e l :: e.preorder
  | .call f es l => .call f es l :: Expr.preorderList es

def Expr.preorderList : List Expr → List Expr
  | [] => []
  | e :: es => e.preorder ++ Expr.preorderList es

end

/-- All expressions under statements. -/
def Stmt.exprsUnder (ss : List Stmt) : List Expr := (Stmt.listRootExprs ss).flatMap Expr.preorder

theorem Expr.preorderList_eq {es : List Expr} (h : ∀ e ∈ es, Node.exprs e.walk = e.preorder) :
    Node.exprs (Expr.walkList es) = Expr.preorderList es := by
  induction es with
  | nil => rfl
  | cons e es ih =>
    rw [walkList, preorderList, Node.exprs_append, h e List.mem_cons_self,
      ih fun e he => h e (List.mem_cons_of_mem _ he)]

@[simp] theorem Expr.exprs_walk (e : Expr) : Node.exprs e.walk = e.preorder := by
  induction e using Expr.induct with
  | literal v l | access x l => rfl
  | grouping e l ih | unary op e l ih | assign x e l ih => simp [walk, preorder, ih]
  | binary a op b l iha ihb | logical a op b l iha ihb => simp [walk, preorder, iha, ihb]
  | call f es l ih => simp [walk, preorder, preorderList_eq ih]

@[simp] theorem Expr.exprs_walkOption (e : Option Expr) :
    Node.exprs (Expr.walkOption e) = e.toList.flatMap Expr.preorder := by
  cases e with
  | none => rfl
  | some e => simp [walkOption]

theorem Stmt.exprs_walkList_of {ss : List Stmt}
    (h : ∀ s ∈ ss, Node.exprs s.walk = s.rootExprs.flatMap Expr.preorder) :
    Node.exprs (Stmt.walkList ss) = Stmt.exprsUnder ss := by
  induction ss with
  | nil => rfl
  | cons s ss ih =>
    rw [exprsUnder] at ih ⊢
    rw [walkList, listRootExprs, Node.exprs_append, h s List.mem_cons_self,
      ih fun t ht => h t (List.mem_cons_of_mem _ ht), List.flatMap_append]

theorem Stmt.exprs_walk (s : Stmt) : Node.exprs s.walk = s.rootExprs.flatMap Expr.preorder := by
  induction s using Stmt.induct with
  | function x t ps body k l ih | block ss l ih | loop c body k l ih =>
    simp [walk, rootExprs, exprs_walkList_of ih, exprsUnder]
  | expression e l | print e l | declare x t e l | ret e l => simp [walk, rootExprs]
  | branch c s o l ihs iho =>
    cases o with
    | none => simp [walk, walkOption, rootExprs, optionRootExprs, ihs]
    | some t => simp [walk, walkOption, rootExprs, optionRootExprs, ihs, iho t rfl]

/-- The expressions of a walk are those under the statements. -/
theorem Stmt.exprs_walkList (ss : List Stmt) : Node.exprs (Stmt.walkList ss) = Stmt.exprsUnder ss :=
  exprs_walkList_of fun s _ => s.exprs_walk

/-! ### Statements -/

mutual

/-- A statement and all statements in it, each before those in it. -/
def Stmt.preorder : Stmt → List Stmt
  | .function x t ps body k l => .function x t ps body k l :: Stmt.stmtsUnder body
  | .block ss l => .block ss l :: Stmt.stmtsUnder ss
  | .expression e l => [.expression e l]
  | .branch c s o l => .branch c s o l :: (s.preorder ++ Stmt.optionPreorder o)
  | .print e l => [.print e l]
  | .declare x t e l => [.declare x t e l]
  | .loop c body k l => .loop c body k l :: Stmt.stmtsUnder body
  | .ret e l => [.ret e l]

/-- Statements and all statements in them. -/
def Stmt.stmtsUnder : List Stmt → List Stmt
  | [] => []
  | s :: ss => s.preorder ++ Stmt.stmtsUnder ss

def Stmt.optionPreorder : Option Stmt → List Stmt
  | none => []
  | some s => s.preorder

end

theorem Stmt.stmts_walkList_of {ss : List Stmt} (h : ∀ s ∈ ss, Node.stmts s.walk = s.preorder) :
    Node.stmts (Stmt.walkList ss) = Stmt.stmtsUnder ss := by
  induction ss with
  | nil => rfl
  | cons s ss ih =>
    rw [walkList, stmtsUnder, Node.stmts_append, h s List.mem_cons_self,
      ih fun t ht => h t (List.mem_cons_of_mem _ ht)]

theorem Stmt.stmts_walk (s : Stmt) : Node.stmts s.walk = s.preorder := by
  induction s using Stmt.induct with
  | function x t ps body k l ih | block ss l ih | loop c body k l ih =>
    simp [walk, preorder, stmts_walkList_of ih]
  | expression e l | print e l | declare x t e l | ret e l => simp [walk, preorder]
  | branch c s o l ihs iho =>
    cases o with
    | none => simp [walk, walkOption, preorder, optionPreorder, ihs]
    | some t => simp [walk, walkOption, preorder, optionPreorder, ihs, iho t rfl]

/-- The statements of a walk are those under the statements. -/
theorem Stmt.stmts_walkList (ss : List Stmt) : Node.stmts (Stmt.walkList ss) = Stmt.stmtsUnder ss :=
  stmts_walkList_of fun s _ => s.stmts_walk

end TreeWalk
