import TreeWalk.Folder
import TreeWalk.Proofs.Balance
import TreeWalk.Proofs.Tree.Induction

/-! The value of a constant expression as a function of the tree alone. The folder hands values from
operand to operator on its channel; the visit of an expression leaves exactly the value defined here and
lists nothing. -/

namespace TreeWalk.Folder

open Visit

/-- The value of an expression, if it is constant. -/
def constant : Expr → Option Value
  | .literal value _ => some value
  | .grouping inner _ => constant inner
  | .unary op operand _ => (constant operand).bind (Value.unary op)
  | .binary left op right _ =>
    (constant left).bind fun a => (constant right).bind fun b => Value.binary op a b
  | .logical left op right _ => Value.logical op (constant left) (constant right)
  | .access .. | .assign .. | .call .. => none

/-- The visit of an expression leaves its value and nothing else. -/
theorem visit_leaves (e : Expr) : Leaves (visit e) (constant e) id := by
  induction e using Expr.induct with
  | literal value l => intro v; rfl
  | grouping e l ih => intro v; simp [visit, constant, run_result ih]
  | unary op e l ih => intro v; simp [visit, constant, run_result ih]
  | binary a op b l iha ihb => intro v; simp [visit, constant, run_result iha, run_result ihb]
  | logical a op b l iha ihb => intro v; simp [visit, constant, run_result iha, run_result ihb]
  | access x l => intro v; rfl
  | assign x e l ih => intro v; rfl
  | call f es l ih => intro v; rfl

theorem run_expr (e : Expr) (v : Visitor Folder (Option Value)) :
    StateT.run (expr e) v = (constant e, v) :=
  run_result (visit_leaves e) none e.line v

end TreeWalk.Folder

/-- Folding an expression on its own gives its value. -/
theorem TreeWalk.Expr.fold_eq_constant (e : TreeWalk.Expr) :
    e.fold = TreeWalk.Folder.constant e := by
  rw [Expr.fold, Folder.run_expr]
