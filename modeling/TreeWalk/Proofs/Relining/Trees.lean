import TreeWalk.Proofs.Tree.Nodes

/-! Trees on other lines. A map of lines is applied to every node of a tree, to the parameters of functions
and to the bodies of functions and loops; the rest of the tree stays. Erasing all lines is the map that
sends every line to none. The shape of a tree does not see the map: blocks remain blocks, and the kinds on a
walk are the same. -/

namespace TreeWalk

/-! ### Moving the lines -/

mutual

/-- The expression with the line of every node moved by `f`. -/
def Expr.relined (f : Line → Line) : Expr → Expr
  | .literal v l => .literal v (f l)
  | .grouping e l => .grouping (e.relined f) (f l)
  | .unary op e l => .unary op (e.relined f) (f l)
  | .binary a op b l => .binary (a.relined f) op (b.relined f) (f l)
  | .logical a op b l => .logical (a.relined f) op (b.relined f) (f l)
  | .access x l => .access x (f l)
  | .assign x e l => .assign x (e.relined f) (f l)
  | .call g es l => .call g (Expr.listRelined f es) (f l)

def Expr.listRelined (f : Line → Line) : List Expr → List Expr
  | [] => []
  | e :: es => e.relined f :: Expr.listRelined f es

end

def Parameter.relined (f : Line → Line) (p : Parameter) : Parameter := { p with line := f p.line }

mutual

/-- The statement with the line of every node, parameter and body moved by `f`. -/
def Stmt.relined (f : Line → Line) : Stmt → Stmt
  | .function x t ps body k l =>
    .function x t (ps.map (Parameter.relined f)) (Stmt.listRelined f body) (f k) (f l)
  | .block ss l => .block (Stmt.listRelined f ss) (f l)
  | .expression e l => .expression (e.relined f) (f l)
  | .branch c s o l => .branch (c.relined f) (s.relined f) (Stmt.optionRelined f o) (f l)
  | .print e l => .print (e.relined f) (f l)
  | .declare x t e l => .declare x t (e.map (Expr.relined f)) (f l)
  | .loop c body k l => .loop (c.relined f) (Stmt.listRelined f body) (f k) (f l)
  | .ret e l => .ret (e.map (Expr.relined f)) (f l)

def Stmt.listRelined (f : Line → Line) : List Stmt → List Stmt
  | [] => []
  | s :: ss => s.relined f :: Stmt.listRelined f ss

def Stmt.optionRelined (f : Line → Line) : Option Stmt → Option Stmt
  | none => none
  | some s => some (s.relined f)

end

def Program.relined (f : Line → Line) (u : Program) : Program := Stmt.listRelined f u

/-- The program with all its lines erased. -/
def Program.unlined (u : Program) : Program := u.relined fun _ => 0

variable (f : Line → Line)

theorem Expr.length_listRelined (es : List Expr) : (listRelined f es).length = es.length := by
  induction es with
  | nil => rfl
  | cons e es ih => rw [listRelined, List.length_cons, List.length_cons, ih]

/-! ### Expressions -/

@[simp] theorem Expr.line_relined (e : Expr) : (e.relined f).line = f e.line := by
  cases e <;> rfl

@[simp] theorem Expr.isLiteral_relined (e : Expr) : (e.relined f).isLiteral = e.isLiteral := by
  cases e <;> rfl

theorem Expr.kinds_walkList_relined {es : List Expr}
    (h : ∀ e ∈ es, Node.kinds (e.relined f).walk = Node.kinds e.walk) :
    Node.kinds (walkList (listRelined f es)) = Node.kinds (walkList es) := by
  induction es with
  | nil => rfl
  | cons e es ih =>
    rw [listRelined, walkList, walkList, Node.kinds_append, Node.kinds_append, h e List.mem_cons_self,
      ih fun e he => h e (List.mem_cons_of_mem _ he)]

theorem Expr.kinds_walk_relined (e : Expr) : Node.kinds (e.relined f).walk = Node.kinds e.walk := by
  induction e using Expr.induct with
  | literal v l | access x l => rfl
  | grouping e l ih | unary op e l ih | assign x e l ih => simp [relined, walk, kind, ih]
  | binary a op b l iha ihb | logical a op b l iha ihb => simp [relined, walk, kind, iha, ihb]
  | call g es l ih => simp [relined, walk, kind, kinds_walkList_relined f ih]

theorem Expr.kinds_walkOption_relined (e : Option Expr) :
    Node.kinds (walkOption (e.map (relined f))) = Node.kinds (walkOption e) := by
  cases e with
  | none => rfl
  | some e => exact e.kinds_walk_relined f

/-! ### Statements -/

namespace Stmt

@[simp] theorem isFunction_relined (s : Stmt) : (s.relined f).isFunction = s.isFunction := by
  cases s <;> rfl

@[simp] theorem isBlock_relined (s : Stmt) : (s.relined f).isBlock = s.isBlock := by
  cases s <;> rfl

theorem branchStatements_relined (s : Stmt) :
    (s.relined f).branchStatements = listRelined f s.branchStatements := by
  cases s <;> rfl

theorem listRootExprs_relined_of {ss : List Stmt}
    (h : ∀ s ∈ ss, (s.relined f).rootExprs = s.rootExprs.map (Expr.relined f)) :
    listRootExprs (listRelined f ss) = (listRootExprs ss).map (Expr.relined f) := by
  induction ss with
  | nil => rfl
  | cons s ss ih =>
    rw [listRelined, listRootExprs, listRootExprs, List.map_append, h s List.mem_cons_self,
      ih fun t ht => h t (List.mem_cons_of_mem _ ht)]

theorem rootExprs_relined (s : Stmt) : (s.relined f).rootExprs = s.rootExprs.map (Expr.relined f) := by
  induction s using Stmt.induct with
  | function x t ps body k l ih | block body l ih | loop c body k l ih =>
    simp [relined, rootExprs, listRootExprs_relined_of f ih]
  | expression e l | print e l => rfl
  | declare x t e l | ret e l => cases e <;> rfl
  | branch c s o l ihs iho =>
    cases o with
    | none => simp [relined, rootExprs, optionRelined, optionRootExprs, ihs]
    | some t => simp [relined, rootExprs, optionRelined, optionRootExprs, ihs, iho t rfl]

theorem listRootExprs_relined (ss : List Stmt) :
    listRootExprs (listRelined f ss) = (listRootExprs ss).map (Expr.relined f) :=
  listRootExprs_relined_of f fun s _ => s.rootExprs_relined f

theorem kinds_walkList_relined_of {ss : List Stmt}
    (h : ∀ s ∈ ss, Node.kinds (s.relined f).walk = Node.kinds s.walk) :
    Node.kinds (walkList (listRelined f ss)) = Node.kinds (walkList ss) := by
  induction ss with
  | nil => rfl
  | cons s ss ih =>
    rw [listRelined, walkList, walkList, Node.kinds_append, Node.kinds_append, h s List.mem_cons_self,
      ih fun t ht => h t (List.mem_cons_of_mem _ ht)]

theorem kinds_walk_relined (s : Stmt) : Node.kinds (s.relined f).walk = Node.kinds s.walk := by
  induction s using Stmt.induct with
  | function x t ps body k l ih | block body l ih =>
    simp [relined, walk, kind, kinds_walkList_relined_of f ih]
  | loop c body k l ih => simp [relined, walk, kind, kinds_walkList_relined_of f ih, c.kinds_walk_relined]
  | expression e l | print e l => simp [relined, walk, kind, e.kinds_walk_relined]
  | declare x t e l | ret e l => simp [relined, walk, kind, Expr.kinds_walkOption_relined]
  | branch c s o l ihs iho =>
    cases o with
    | none => simp [relined, walk, walkOption, optionRelined, kind, c.kinds_walk_relined, ihs]
    | some t => simp [relined, walk, walkOption, optionRelined, kind, c.kinds_walk_relined, ihs, iho t rfl]

theorem kinds_walkList_relined (ss : List Stmt) :
    Node.kinds (walkList (listRelined f ss)) = Node.kinds (walkList ss) :=
  kinds_walkList_relined_of f fun s _ => s.kinds_walk_relined f

end Stmt

end TreeWalk
