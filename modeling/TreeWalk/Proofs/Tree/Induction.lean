import TreeWalk.Tree.Basic

/-! Induction over trees. An expression holds its arguments in a list and a statement holds statements
in lists and options, so the hypothesis for such children is about every member. Where a branch has a
scope of its own it counts as a list of statements: those of a block, or the one statement that it is.
The expressions that stand in a statement itself, not in another expression, are its roots. -/

namespace TreeWalk

/-- Induction over an expression and all expressions in it. -/
@[elab_as_elim]
theorem Expr.induct {motive : Expr → Prop}
    (literal : ∀ v l, motive (.literal v l))
    (grouping : ∀ e l, motive e → motive (.grouping e l))
    (unary : ∀ op e l, motive e → motive (.unary op e l))
    (binary : ∀ a op b l, motive a → motive b → motive (.binary a op b l))
    (logical : ∀ a op b l, motive a → motive b → motive (.logical a op b l))
    (access : ∀ x l, motive (.access x l))
    (assign : ∀ x e l, motive e → motive (.assign x e l))
    (call : ∀ f es l, (∀ e ∈ es, motive e) → motive (.call f es l)) : ∀ e, motive e
  | .literal v l => literal v l
  | .grouping e l =>
    grouping e l (Expr.induct literal grouping unary binary logical access assign call e)
  | .unary op e l =>
    unary op e l (Expr.induct literal grouping unary binary logical access assign call e)
  | .binary a op b l =>
    binary a op b l (Expr.induct literal grouping unary binary logical access assign call a)
      (Expr.induct literal grouping unary binary logical access assign call b)
  | .logical a op b l =>
    logical a op b l (Expr.induct literal grouping unary binary logical access assign call a)
      (Expr.induct literal grouping unary binary logical access assign call b)
  | .access x l => access x l
  | .assign x e l =>
    assign x e l (Expr.induct literal grouping unary binary logical access assign call e)
  | .call f es l =>
    call f es l fun e _ => Expr.induct literal grouping unary binary logical access assign call e

/-- Induction over a statement and all statements in it. -/
@[elab_as_elim]
theorem Stmt.induct {motive : Stmt → Prop}
    (function : ∀ x t ps body k l, (∀ s ∈ body, motive s) → motive (.function x t ps body k l))
    (block : ∀ ss l, (∀ s ∈ ss, motive s) → motive (.block ss l))
    (expression : ∀ e l, motive (.expression e l))
    (branch : ∀ c s o l, motive s → (∀ t ∈ o, motive t) → motive (.branch c s o l))
    (print : ∀ e l, motive (.print e l))
    (declare : ∀ x t e l, motive (.declare x t e l))
    (loop : ∀ c body k l, (∀ s ∈ body, motive s) → motive (.loop c body k l))
    (ret : ∀ e l, motive (.ret e l)) : ∀ s, motive s
  | .function x t ps body k l => function x t ps body k l fun s _ =>
    Stmt.induct function block expression branch print declare loop ret s
  | .block ss l => block ss l fun s _ =>
    Stmt.induct function block expression branch print declare loop ret s
  | .expression e l => expression e l
  | .branch c s none l =>
    branch c s none l (Stmt.induct function block expression branch print declare loop ret s) nofun
  | .branch c s (some t) l =>
    branch c s (some t) l (Stmt.induct function block expression branch print declare loop ret s)
      fun t' h => Option.some.inj h ▸
        Stmt.induct function block expression branch print declare loop ret t
  | .print e l => print e l
  | .declare x t e l => declare x t e l
  | .loop c body k l => loop c body k l fun s _ =>
    Stmt.induct function block expression branch print declare loop ret s
  | .ret e l => ret e l

/-- The statements of a branch. A lone statement is a list of its own. -/
def Stmt.branchStatements : Stmt → List Stmt
  | .block ss _ => ss
  | s => [s]

def Stmt.isBlock : Stmt → Bool
  | .block .. => true
  | _ => false

theorem Stmt.isBlock_iff {s : Stmt} : s.isBlock ↔ ∃ ss k, s = .block ss k := by
  cases s <;> simp [isBlock]

theorem Stmt.branchStatements_lone {s : Stmt} (h : s.isBlock = false) : s.branchStatements = [s] := by
  cases s with
  | block ss k => simp [isBlock] at h
  | _ => rfl

/-- Induction over a statement and the lists of statements in it, branches being such lists. -/
@[elab_as_elim]
theorem Stmt.scopeInduct {motive : Stmt → Prop}
    (function : ∀ x t ps body k l, (∀ s ∈ body, motive s) → motive (.function x t ps body k l))
    (block : ∀ ss l, (∀ s ∈ ss, motive s) → motive (.block ss l))
    (expression : ∀ e l, motive (.expression e l))
    (branch : ∀ c s o l, (∀ t ∈ s.branchStatements, motive t) →
      (∀ b ∈ o, ∀ t ∈ b.branchStatements, motive t) → motive (.branch c s o l))
    (print : ∀ e l, motive (.print e l))
    (declare : ∀ x t e l, motive (.declare x t e l))
    (loop : ∀ c body k l, (∀ s ∈ body, motive s) → motive (.loop c body k l))
    (ret : ∀ e l, motive (.ret e l)) (s : Stmt) : motive s := by
  have hlone {s : Stmt} (h : motive s) (hs : s.branchStatements = [s]) :
      motive s ∧ ∀ t ∈ s.branchStatements, motive t := by
    rw [hs]
    exact ⟨h, fun t ht => List.mem_singleton.1 ht ▸ h⟩
  suffices h : motive s ∧ ∀ t ∈ s.branchStatements, motive t from h.1
  induction s using Stmt.induct with
  | function x t ps body k l ih => exact hlone (function x t ps body k l fun s hs => (ih s hs).1) rfl
  | block ss l ih => exact ⟨block ss l fun s hs => (ih s hs).1, fun s hs => (ih s hs).1⟩
  | expression e l => exact hlone (expression e l) rfl
  | branch c s o l ihs iho => exact hlone (branch c s o l ihs.2 fun b hb => (iho b hb).2) rfl
  | print e l => exact hlone (print e l) rfl
  | declare x t e l => exact hlone (declare x t e l) rfl
  | loop c body k l ih => exact hlone (loop c body k l fun s hs => (ih s hs).1) rfl
  | ret e l => exact hlone (ret e l) rfl

mutual

/-- The expressions that stand in a statement or in the statements in it, in source order. -/
def Stmt.rootExprs : Stmt → List Expr
  | .function _ _ _ body _ _ => Stmt.listRootExprs body
  | .block ss _ => Stmt.listRootExprs ss
  | .expression e _ | .print e _ => [e]
  | .branch c s o _ => c :: (s.rootExprs ++ Stmt.optionRootExprs o)
  | .declare _ _ e _ | .ret e _ => e.toList
  | .loop c body _ _ => c :: Stmt.listRootExprs body

def Stmt.listRootExprs : List Stmt → List Expr
  | [] => []
  | s :: ss => s.rootExprs ++ Stmt.listRootExprs ss

def Stmt.optionRootExprs : Option Stmt → List Expr
  | none => []
  | some s => s.rootExprs

end

end TreeWalk
