import TreeWalk.Census
import TreeWalk.Proofs.Balance
import TreeWalk.Proofs.Tree.Nodes

/-! What a census does, without its channel. Visiting a node tallies its kind and the kinds of the nodes
in it in the order of a walk, bodies apart; a statement also compares its depth and those of the
statements in it with the deepest so far, and the sizes of its roots with the largest. All three are
folds over lists that are read off the tree. -/

namespace TreeWalk

/-! ### Lists read off the tree -/

/-- The number of nodes of an expression. -/
def Expr.nodes (e : Expr) : Nat := (Node.kinds e.walk).length

mutual

/-- The depths of a statement inside `depth` others and of the statements in it. -/
def Stmt.depths (depth : Nat) : Stmt → List Nat
  | .function _ _ _ body _ _ => (depth + 1) :: Stmt.listDepths (depth + 1) body
  | .block ss _ => (depth + 1) :: Stmt.listDepths (depth + 1) ss
  | .branch _ s o _ => (depth + 1) :: (s.depths (depth + 1) ++ Stmt.optionDepths (depth + 1) o)
  | .loop _ body _ _ => (depth + 1) :: Stmt.listDepths (depth + 1) body
  | .expression _ _ | .print _ _ | .declare _ _ _ _ | .ret _ _ => [depth + 1]

def Stmt.listDepths (depth : Nat) : List Stmt → List Nat
  | [] => []
  | s :: ss => s.depths depth ++ Stmt.listDepths depth ss

def Stmt.optionDepths (depth : Nat) : Option Stmt → List Nat
  | none => []
  | some s => s.depths depth

end

namespace Census

open Visit

/-- Adds the kinds of nodes, the depths of statements and the sizes of roots to what was found. -/
def adding (kinds : List NodeKind) (depths sizes : List Nat) (c : Census) : Census :=
  { c with report := {
    counts := kinds.foldl (fun counts kind => counts.tally kind) c.report.counts
    maxDepth := depths.foldl max c.report.maxDepth
    largest := sizes.foldl max c.report.largest } }

@[simp] theorem adding_nil (c : Census) : c.adding [] [] [] = c := rfl

@[simp] theorem adding_adding (c : Census) (ks ks' : List NodeKind) (ds ds' zs zs' : List Nat) :
    (c.adding ks ds zs).adding ks' ds' zs' = c.adding (ks ++ ks') (ds ++ ds') (zs ++ zs') := by
  simp [adding]

@[simp] theorem adding_depth (c : Census) (ks : List NodeKind) (ds zs : List Nat) :
    (c.adding ks ds zs).depth = c.depth := rfl

/-! ### Expressions -/

theorem run_tally (kind : NodeKind) (v : Visitor Census Nat) :
    StateT.run (tally kind) v = ((), ⟨v.state.adding [kind] [] [], v.channel⟩) := rfl

theorem run_visitArguments (es : List Expr)
    (h : ∀ e ∈ es, Leaves (visit e) e.nodes (adding (Node.kinds e.walk) [] []))
    (v : Visitor Census Nat) : StateT.run (visitArguments es) v =
      ((Node.kinds (Expr.walkList es)).length,
        ⟨v.state.adding (Node.kinds (Expr.walkList es)) [] [], v.channel⟩) := by
  induction es generalizing v with
  | nil => rfl
  | cons e rest ih =>
    have he := h e List.mem_cons_self
    have hrest := ih fun e' h' => h e' (List.mem_cons_of_mem e h')
    simp only [visitArguments, run_bind, run_result he, hrest, run_pure, adding_adding,
      Expr.walkList, Node.kinds_append, List.length_append, Expr.nodes, List.append_nil]

/-- Visiting an expression tallies its nodes and leaves their number. -/
theorem visit_leaves (e : Expr) : Leaves (visit e) e.nodes (adding (Node.kinds e.walk) [] []) := by
  induction e using Expr.induct with
  | literal c l | access x l => intro v; rfl
  | grouping e l ih | unary op e l ih | assign x e l ih =>
    intro v
    simp [visit, run_tally, run_result ih, Expr.nodes, Expr.walk, Expr.kind, Nat.add_comm 1]
  | binary a op b l iha ihb | logical a op b l iha ihb =>
    intro v
    simp [visit, run_tally, run_result iha, run_result ihb, Expr.nodes, Expr.walk, Expr.kind,
      Nat.add_comm 1]
  | call f es l ih =>
    intro v
    simp [visit, run_tally, run_visitArguments es ih, Expr.nodes, Expr.walk, Expr.kind, Nat.add_comm 1]

/-! ### Statements -/

/-- The action adds these kinds, depths and sizes and gives the number of kinds. -/
def Finds (x : Visit Census Nat Nat) (kinds : List NodeKind) (depths : Nat → List Nat)
    (sizes : List Nat) : Prop :=
  ∀ c ch, StateT.run x ⟨c, ch⟩ =
    (kinds.length, ⟨c.adding kinds (depths c.depth) sizes, ch⟩)

/-- The action adds these kinds, depths and sizes and gives a slot with the number of kinds. -/
def FindsSlot (x : Visit Census Nat Slot) (kinds : List NodeKind) (depths : Nat → List Nat)
    (sizes : List Nat) : Prop :=
  ∀ c ch, StateT.run x ⟨c, ch⟩ =
    (.holding (.count kinds.length), ⟨c.adding kinds (depths c.depth) sizes, ch⟩)

theorem FindsSlot.count {x : Visit Census Nat Slot} {ks : List NodeKind} {ds : Nat → List Nat}
    {zs : List Nat} (hx : FindsSlot x ks ds zs) : Finds (do return (← x).count) ks ds zs := by
  intro c ch
  rw [run_bind, hx c ch]
  rfl

theorem finds_nothing : Finds (pure 0) [] (fun _ => []) [] := fun _ _ => rfl

theorem finds_root (e : Expr) :
    Finds (root e) (Node.kinds e.walk) (fun _ => []) [e.nodes] := by
  intro c ch
  rw [root, expr, run_bind, run_result (visit_leaves e)]
  rfl

theorem finds_optionalRoot (e : Option Expr) :
    Finds (optionalRoot e) (Node.kinds (Expr.walkOption e)) (fun _ => []) (e.toList.map Expr.nodes) := by
  cases e with
  | none => exact finds_nothing
  | some e => exact finds_root e

theorem Finds.add {x y : Visit Census Nat Nat} {ks ks' : List NodeKind} {ds ds' : Nat → List Nat}
    {zs zs' : List Nat} (hx : Finds x ks ds zs) (hy : Finds y ks' ds' zs') :
    Finds (do
      let n ← x
      let m ← y
      return n + m) (ks ++ ks') (fun depth => ds depth ++ ds' depth) (zs ++ zs') := by
  intro c ch
  simp only [run_bind, hx c ch, hy _ ch, run_pure, adding_adding, adding_depth, List.length_append]

theorem Finds.enter {x : Visit Census Nat Nat} {ks : List NodeKind} {ds : Nat → List Nat}
    {zs : List Nat} (kind : StmtKind) (hx : Finds x ks ds zs) :
    FindsSlot (enter kind x) (.stmt kind :: ks) (fun depth => (depth + 1) :: ds (depth + 1)) zs := by
  intro c ch
  have hin : StateT.run (Visit.update fun c : Census => { c with
      depth := c.depth + 1, report.maxDepth := max c.report.maxDepth (c.depth + 1) })
      ⟨c.adding [.stmt kind] [] [], ch⟩ =
      ((), ⟨{ c.adding [.stmt kind] [c.depth + 1] [] with depth := c.depth + 1 }, ch⟩) := rfl
  rw [Census.enter, run_bind, run_tally, run_bind, hin, run_bind, hx, run_bind, run_update, run_pure]
  simp [adding, Nat.add_comm 1]

/-- Visiting the statement finds the kinds of its nodes, its depths and the sizes of its roots. -/
abbrev FindsStmt (s : Stmt) : Prop :=
  FindsSlot (accept s) (Node.kinds s.walk) (s.depths ·) (s.rootExprs.map Expr.nodes)

theorem finds_stmts {ss : List Stmt} (h : ∀ s ∈ ss, FindsStmt s) :
    Finds (stmts ss) (Node.kinds (Stmt.walkList ss)) (Stmt.listDepths · ss)
      ((Stmt.listRootExprs ss).map Expr.nodes) := by
  induction ss with
  | nil =>
    rw [stmts]
    exact finds_nothing
  | cons s rest ih =>
    have hs := h s List.mem_cons_self
    have hrest := ih fun t ht => h t (List.mem_cons_of_mem s ht)
    simpa [stmts, Stmt.walkList, Stmt.listDepths, Stmt.listRootExprs] using hs.count.add hrest

theorem finds_elseStmt {o : Option Stmt} (h : ∀ s ∈ o, FindsStmt s) :
    Finds (elseStmt o) (Node.kinds (Stmt.walkOption o)) (Stmt.optionDepths · o)
      ((Stmt.optionRootExprs o).map Expr.nodes) := by
  cases o with
  | none =>
    rw [elseStmt]
    exact finds_nothing
  | some s => simpa [elseStmt, Stmt.walkOption, Stmt.optionDepths, Stmt.optionRootExprs] using (h s rfl).count

theorem findsStmt (s : Stmt) : FindsStmt s := by
  induction s using Stmt.induct with
  | function x t ps body k l ih => exact (finds_stmts ih).enter .function
  | block ss l ih => exact (finds_stmts ih).enter .block
  | expression e l => exact (finds_root e).enter .expression
  | branch c s o l ihs iho =>
    have hall := (((finds_root c).add ihs.count).add (finds_elseStmt iho)).enter .branch
    simpa [FindsStmt, accept, Stmt.walk, Stmt.depths, Stmt.rootExprs, Stmt.kind] using hall
  | print e l => exact (finds_root e).enter .print
  | declare x t e l => exact (finds_optionalRoot e).enter .declare
  | loop c body k l ih =>
    have hall := ((finds_root c).add (finds_stmts ih)).enter .loop
    simpa [FindsStmt, accept, Stmt.walk, Stmt.depths, Stmt.rootExprs, Stmt.kind] using hall
  | ret e l => exact (finds_optionalRoot e).enter .ret

end Census

/-- The census of a program reports what its statements add to nothing. -/
theorem Program.census_eq (u : Program) :
    u.census = (({} : Census).adding (Node.kinds (Stmt.walkList u)) (Stmt.listDepths 0 u)
      ((Stmt.listRootExprs u).map Expr.nodes)).report := by
  have hfinds := Census.finds_stmts (fun s (_ : s ∈ u) => Census.findsStmt s) {} {}
  exact congrArg (·.2.state.report) hfinds

end TreeWalk
