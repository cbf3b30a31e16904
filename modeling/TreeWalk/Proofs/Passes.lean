import TreeWalk.Proofs.Counting.Effect
import TreeWalk.Proofs.Folding.Listing
import TreeWalk.Proofs.Layout.Lines
import TreeWalk.Proofs.Scoping.Effect

/-! All four passes are balanced: the printer, the census, the declaration check and the folder leave
exactly one value for every expression and none for a statement, from whatever state they start. So the
value that a pass falls back on, where an expression left none or more than one, is never used. -/

namespace TreeWalk

open Visit

/-- What is asked of a pass that visits expressions by `visit`, takes their values by `take` and visits
statements by `stmt`. -/
structure Balanced {σ α β : Type} (visit : Expr → Visit σ α Unit) (take : Expr → Visit σ α α)
    (stmt : Stmt → Visit σ α β) : Prop where
  /-- There is one value for an expression, whatever the channel holds. Visiting the expression pushes
  it, and to evaluate or to take the expression gives it and leaves the channel as it was. -/
  expr : ∀ e, ∃ (value : α) (step : σ → σ), ∀ v : Visitor σ α,
    StateT.run (visit e) v = ((), ⟨step v.state, v.channel.push value⟩) ∧
    StateT.run (evaluate e.line (visit e)) v = (.ok value, ⟨step v.state, v.channel⟩) ∧
    StateT.run (take e) v = (value, ⟨step v.state, v.channel⟩)
  stmt : ∀ s v, (StateT.run (stmt s) v).2.channel = v.channel

/-- Visits that leave one value are balanced with any fallback. -/
theorem balanced_of_leaves {σ α β : Type} {visit : Expr → Visit σ α Unit} {stmt : Stmt → Visit σ α β}
    {value : Expr → α} {step : Expr → σ → σ} (fallback : α)
    (hvisit : ∀ e, Leaves (visit e) (value e) (step e))
    (hstmt : ∀ s v, (StateT.run (stmt s) v).2.channel = v.channel) :
    Balanced visit (fun e => result fallback e.line (visit e)) stmt where
  expr e := ⟨value e, step e, fun v =>
    ⟨hvisit e v, run_evaluate (hvisit e) e.line v, run_result (hvisit e) fallback e.line v⟩⟩
  stmt := hstmt

theorem passes_balanced :
    Balanced Printer.visit Printer.expr Printer.stmt ∧
      Balanced Census.visit Census.expr Census.accept ∧
      Balanced (Checker.visit : Expr → Checker.Check Checker Unit) Checker.expr Checker.stmt ∧
      Balanced Folder.visit Folder.expr Folder.accept := by
  refine ⟨balanced_of_leaves "" Printer.visit_leaves ?_, balanced_of_leaves 0 Census.visit_leaves ?_,
    balanced_of_leaves () Checker.visit_leaves ?_, balanced_of_leaves none Folder.visit_leaves ?_⟩
  · intro s v
    rw [Printer.writesLines s v.state v.channel]
  · intro s v
    rw [Census.findsStmt s v.state v.channel]
  · intro s v
    exact congrArg (·.2.channel) (Checker.tracks s v.state.view v.state.faults v.channel)
  · intro s v
    rw [Folder.listsStmt s v.state v.channel]

end TreeWalk
