import TreeWalk.Printer
import TreeWalk.Proofs.Balance
import TreeWalk.Proofs.Tree.Induction

/-! The text of an expression as a function of the tree alone. The printer hands texts from operand to
operator on its channel; the visit of an expression leaves exactly the text defined here and changes
nothing else. -/

namespace TreeWalk.Printer

open Visit

mutual

/-- The text of an expression. -/
def spell : Expr → String
  | .literal value _ => value.display
  | .grouping inner _ => parenthesize (spell inner)
  | .unary op operand _ =>
    op ++ separator op (fit operand unaryPrecedence (spell operand)) ++
      fit operand unaryPrecedence (spell operand)
  | .binary left op right _ | .logical left op right _ =>
    fit left (opPrecedence op) (spell left) ++ " " ++ op ++ " " ++
      fit right (opPrecedence op + 1) (spell right)
  | .access name _ => name
  | .assign name value _ => name ++ " = " ++ spell value
  | .call callee arguments _ => callee ++ parenthesize (String.intercalate ", " (spellList arguments))

def spellList : List Expr → List String
  | [] => []
  | e :: rest => spell e :: spellList rest

end

theorem run_visitArguments (es : List Expr) (h : ∀ e ∈ es, Leaves (visit e) (spell e) id)
    (v : Visitor Printer String) : StateT.run (visitArguments es) v = (spellList es, v) := by
  induction es with
  | nil => rfl
  | cons e rest ih =>
    have he := h e (by simp)
    have hr := ih fun e' h' => h e' (by simp [h'])
    simp only [visitArguments, run_bind, run_result he, run_pure, id]
    rw [hr]
    rfl

/-- The visit of an expression leaves its text and nothing else. -/
theorem visit_leaves (e : Expr) : Leaves (visit e) (spell e) id := by
  induction e using Expr.induct with
  | literal value l => intro v; rfl
  | grouping e l ih => intro v; simp [visit, spell, run_result ih]
  | unary op e l ih => intro v; simp [visit, spell, run_result ih]
  | binary a op b l iha ihb => intro v; simp [visit, spell, run_result iha, run_result ihb]
  | logical a op b l iha ihb => intro v; simp [visit, spell, run_result iha, run_result ihb]
  | access x l => intro v; rfl
  | assign x e l ih => intro v; simp [visit, spell, run_result ih]
  | call f es l ih => intro v; simp [visit, spell, run_visitArguments es ih]

theorem run_expr (e : Expr) (v : Visitor Printer String) : StateT.run (expr e) v = (spell e, v) :=
  run_result (visit_leaves e) "" e.line v

end TreeWalk.Printer

/-- Printing an expression on its own gives its text. -/
theorem TreeWalk.Expr.text_eq_spell (e : TreeWalk.Expr) : e.text = TreeWalk.Printer.spell e := by
  rw [Expr.text, Printer.run_expr]
