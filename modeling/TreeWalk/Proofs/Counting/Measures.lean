import TreeWalk.Proofs.Counting.Agreement

/-! What the census measures. The greatest depth is the height of the program, which is read off its
statements alone, and the largest size is the greatest number of nodes of an expression that stands in a
statement. The visit of a statement gives a slot with the number of its nodes, so that who takes it out never
goes on with a default; by that number the total grows, whatever was counted before, and the depth is
afterwards what it was. -/

namespace TreeWalk

/-! ### Heights -/

mutual

/-- How deep statements nest in a statement: one level more than in the statements in it. -/
def Stmt.height : Stmt → Nat
  | .function _ _ _ body _ _ => Stmt.listHeight body + 1
  | .block ss _ => Stmt.listHeight ss + 1
  | .branch _ s o _ => max s.height (Stmt.optionHeight o) + 1
  | .loop _ body _ _ => Stmt.listHeight body + 1
  | .expression _ _ | .print _ _ | .declare _ _ _ _ | .ret _ _ => 1

/-- The height of the highest statement. -/
def Stmt.listHeight : List Stmt → Nat
  | [] => 0
  | s :: ss => max s.height (Stmt.listHeight ss)

def Stmt.optionHeight : Option Stmt → Nat
  | none => 0
  | some s => s.height

end

namespace Stmt

/-- Comparing the depths of a statement inside `depth` others with `deepest` reaches down by its height. -/
def Reaches (s : Stmt) : Prop :=
  ∀ depth deepest, (s.depths depth).foldl max deepest = max deepest (depth + s.height)

/-- Without statements no depth is compared, so the depth around them has to be counted already. -/
theorem foldl_listDepths {ss : List Stmt} (h : ∀ s ∈ ss, s.Reaches) {depth deepest : Nat}
    (hd : depth ≤ deepest) :
    (listDepths depth ss).foldl max deepest = max deepest (depth + listHeight ss) := by
  induction ss generalizing deepest with
  | nil =>
    rw [listDepths, List.foldl_nil, listHeight]
    omega
  | cons s ss ih =>
    have hs := h s List.mem_cons_self depth deepest
    rw [listDepths, List.foldl_append, hs, ih (fun t ht => h t (List.mem_cons_of_mem s ht)) (by omega),
      listHeight]
    omega

theorem foldl_optionDepths {o : Option Stmt} (h : ∀ s ∈ o, s.Reaches) {depth deepest : Nat}
    (hd : depth ≤ deepest) :
    (optionDepths depth o).foldl max deepest = max deepest (depth + optionHeight o) := by
  cases o with
  | none =>
    rw [optionDepths, List.foldl_nil, optionHeight]
    omega
  | some s => exact h s rfl depth deepest

theorem reaches (s : Stmt) : s.Reaches := by
  induction s using Stmt.induct with
  | function x t ps body k l ih | block body l ih | loop c body k l ih =>
    intro depth deepest
    rw [depths, List.foldl_cons, foldl_listDepths ih (Nat.le_max_right _ _), height]
    omega
  | expression e l | print e l | declare x t e l | ret e l =>
    intro depth deepest
    rfl
  | branch c s o l ihs iho =>
    intro depth deepest
    have hd : depth + 1 ≤ max (max deepest (depth + 1)) (depth + 1 + s.height) := by omega
    rw [depths, List.foldl_cons, List.foldl_append, ihs, foldl_optionDepths iho hd, height]
    omega

end Stmt

/-! ### Sizes -/

/-- The number of nodes of a statement: of the statements and expressions in it, with itself. -/
def Stmt.nodes (s : Stmt) : Nat := s.preorder.length + (s.rootExprs.flatMap Expr.preorder).length

theorem Node.length_kinds (ns : List Node) : (kinds ns).length = (stmts ns).length + (exprs ns).length := by
  have hcount := countP_kinds (fun _ => true) ns
  simpa only [List.countP_true] using hcount

theorem Expr.nodes_eq (e : Expr) : e.nodes = e.preorder.length := by
  rw [nodes, Node.length_kinds, Node.stmts_walk, Expr.exprs_walk, List.length_nil, Nat.zero_add]

theorem Stmt.length_kinds_walk (s : Stmt) : (Node.kinds s.walk).length = s.nodes := by
  rw [Node.length_kinds, stmts_walk, exprs_walk, nodes]

/-- Starting from zero, the running maximum of some numbers is the greatest of them. -/
theorem foldl_max_zero (ns : List Nat) : ns.foldl max 0 = ns.max?.getD 0 := by
  cases ns with
  | nil => rfl
  | cons n ns => rw [List.max?_cons', Option.getD_some, List.foldl_cons, Nat.zero_max]

/-! ### The census -/

theorem Program.maxDepth_census (u : Program) : u.census.maxDepth = Stmt.listHeight u := by
  have hdepths : u.census.maxDepth = (Stmt.listDepths 0 u).foldl max 0 :=
    congrArg CensusReport.maxDepth u.census_eq
  rw [hdepths, Stmt.foldl_listDepths (fun s _ => s.reaches) (Nat.le_refl 0), Nat.zero_max, Nat.zero_add]

theorem Program.largest_census (u : Program) :
    u.census.largest = ((Stmt.listRootExprs u).map fun e => e.preorder.length).max?.getD 0 := by
  have hsizes : u.census.largest = ((Stmt.listRootExprs u).map Expr.nodes).foldl max 0 :=
    congrArg CensusReport.largest u.census_eq
  rw [hsizes, foldl_max_zero, funext Expr.nodes_eq]

/-- Adding nodes to what a census has found raises the total by their number. -/
theorem Census.total_adding (c : Census) (kinds : List NodeKind) (depths sizes : List Nat) :
    (c.adding kinds depths sizes).report.total = c.report.total + kinds.length := by
  have hsum := Counts.sumOf_tallies (fun _ => true) kinds c.report.counts
  simp only [Counts.sumOf, List.filter_true, List.countP_true] at hsum
  exact hsum

/-- The census of a program has its height and the size of its largest expression. The visit of any
statement, from any state of a census, gives a slot with the number of nodes of the statement, which is what
is then taken out of it; the total grows by as many and the depth is restored. -/
theorem census_measures :
    (∀ u : Program, u.census.maxDepth = Stmt.listHeight u ∧
      u.census.largest = ((Stmt.listRootExprs u).map fun e => e.preorder.length).max?.getD 0) ∧
    ∀ (s : Stmt) (v : Visitor Census Nat),
      (StateT.run (Census.accept s) v).1 = .holding (.count s.nodes) ∧
      (StateT.run (Census.stmt s) v).1 = s.nodes ∧
      (StateT.run (Census.stmt s) v).2.state.report.total = v.state.report.total + s.nodes ∧
      (StateT.run (Census.stmt s) v).2.state.depth = v.state.depth := by
  refine ⟨fun u => ⟨u.maxDepth_census, u.largest_census⟩, fun s v => ⟨?_, ?_⟩⟩
  · rw [Census.findsStmt s v.state v.channel, s.length_kinds_walk]
  · rw [Census.stmt, (Census.findsStmt s).count v.state v.channel, ← s.length_kinds_walk]
    exact ⟨rfl, Census.total_adding _ _ _ _, Census.adding_depth _ _ _ _⟩

end TreeWalk
