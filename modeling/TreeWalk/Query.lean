import TreeWalk.Tree.Kind

/-! Questions about all expressions or all statements of a program, asked in source order. A journey
shows every node to a guide, before the nodes in it, until the guide stops it; from then on it passes by all
that is left. The bodies of functions and loops are not shown, only the statements in them. The questions
take any predicate; a query gives one as data, for who cannot hand over a function. -/

namespace TreeWalk

/-- What a guide says after it was shown a node. -/
inductive Flow where
  | descend
  | stop
deriving DecidableEq, Repr

/-- What is done at each node with the state of the guide. -/
structure Guide (σ : Type) where
  stmt : Stmt → σ → Flow × σ := fun _ s => (.descend, s)
  expr : Expr → σ → Flow × σ := fun _ s => (.descend, s)

/-- A journey under way: the state of its guide, and whether the guide stopped it. -/
structure Journey (σ : Type) where
  state : σ
  stopped : Bool := false

/-- Shows a node, as `visit` does, and goes `inside` it, unless the journey is stopped before or by that. -/
def Journey.enter {σ : Type} (visit : σ → Flow × σ) (inside : Journey σ → Journey σ) (j : Journey σ) :
    Journey σ :=
  if j.stopped then j
  else
    match visit j.state with
    | (.stop, state) => { state, stopped := true }
    | (.descend, state) => inside { state }

section Journey

variable {σ : Type} (guide : Guide σ)

mutual

/-- Shows an expression and all expressions in it. -/
def Expr.journey : Expr → Journey σ → Journey σ
  | .literal v l => .enter (guide.expr (.literal v l)) id
  | .grouping e l => .enter (guide.expr (.grouping e l)) fun j => e.journey j
  | .unary o e l => .enter (guide.expr (.unary o e l)) fun j => e.journey j
  | .binary a o b l => .enter (guide.expr (.binary a o b l)) fun j => b.journey (a.journey j)
  | .logical a o b l => .enter (guide.expr (.logical a o b l)) fun j => b.journey (a.journey j)
  | .access x l => .enter (guide.expr (.access x l)) id
  | .assign x e l => .enter (guide.expr (.assign x e l)) fun j => e.journey j
  | .call f es l => .enter (guide.expr (.call f es l)) fun j => Expr.journeyList es j

def Expr.journeyList : List Expr → Journey σ → Journey σ
  | [], j => j
  | e :: es, j => Expr.journeyList es (e.journey j)

end

def Expr.journeyOption : Option Expr → Journey σ → Journey σ
  | none, j => j
  | some e, j => e.journey guide j

mutual

/-- Shows a statement and all that is in it. -/
def Stmt.journey : Stmt → Journey σ → Journey σ
  | .function x t ps body k l =>
    .enter (guide.stmt (.function x t ps body k l)) fun j => Stmt.journeyList body j
  | .block ss l => .enter (guide.stmt (.block ss l)) fun j => Stmt.journeyList ss j
  | .expression e l => .enter (guide.stmt (.expression e l)) (e.journey guide)
  | .branch c t o l => .enter (guide.stmt (.branch c t o l)) fun j =>
    Stmt.journeyOption o (t.journey (c.journey guide j))
  | .print e l => .enter (guide.stmt (.print e l)) (e.journey guide)
  | .declare x t e l => .enter (guide.stmt (.declare x t e l)) (Expr.journeyOption guide e)
  | .loop c body k l => .enter (guide.stmt (.loop c body k l)) fun j =>
    Stmt.journeyList body (c.journey guide j)
  | .ret e l => .enter (guide.stmt (.ret e l)) (Expr.journeyOption guide e)

def Stmt.journeyList : List Stmt → Journey σ → Journey σ
  | [], j => j
  | t :: ts, j => Stmt.journeyList ts (t.journey j)

def Stmt.journeyOption : Option Stmt → Journey σ → Journey σ
  | none, j => j
  | some t, j => t.journey j

end

end Journey

/-- How a search went: whether a match was found, and the expressions that were tested. -/
structure Search where
  found : Bool := false
  examined : List Expr := []

/-- Tests an expression. A search keeps the expressions it tested latest first. -/
def Search.test (p : Expr → Bool) (e : Expr) (s : Search) : Flow × Search :=
  if p e then (.stop, ⟨true, e :: s.examined⟩) else (.descend, ⟨s.found, e :: s.examined⟩)

/-- Tests expressions in order up to the first that satisfies `p`. -/
def searchExprs (p : Expr → Bool) (ss : List Stmt) : Search :=
  let s := (Stmt.journeyList { expr := Search.test p } ss { state := {} }).state
  ⟨s.found, s.examined.reverse⟩

/-- Whether some expression satisfies `p`. -/
def containsExpr (p : Expr → Bool) (ss : List Stmt) : Bool := (searchExprs p ss).found

/-- The state at the end of a journey in which `step` is done at every expression. -/
def foldExprs {σ : Type} (step : Expr → σ → σ) (ss : List Stmt) (s : σ) : σ :=
  (Stmt.journeyList { expr := fun e s => (.descend, step e s) } ss { state := s }).state

/-- The state at the end of a journey in which `step` is done at every statement. -/
def foldStmts {σ : Type} (step : Stmt → σ → σ) (ss : List Stmt) (s : σ) : σ :=
  (Stmt.journeyList { stmt := fun t s => (.descend, step t s) } ss { state := s }).state

/-- The number of expressions that satisfy `p`. -/
def countExprs (p : Expr → Bool) (ss : List Stmt) : Nat :=
  foldExprs (fun e n => if p e then n + 1 else n) ss 0

/-- The number of statements that satisfy `p`. -/
def countStmts (p : Stmt → Bool) (ss : List Stmt) : Nat :=
  foldStmts (fun s n => if p s then n + 1 else n) ss 0

/-- What `f` gives for the expressions for which it gives something. -/
def collectExprs {α : Type} (f : Expr → Option α) (ss : List Stmt) : List α :=
  (foldExprs (fun e acc => (f e).toList ++ acc) ss []).reverse

/-- What `f` gives for the statements for which it gives something. -/
def collectStmts {α : Type} (f : Stmt → Option α) (ss : List Stmt) : List α :=
  (foldStmts (fun s acc => (f s).toList ++ acc) ss []).reverse

/-- The name or operator that an expression carries. -/
def Expr.label? : Expr → Option String
  | .unary op _ _ | .binary _ op _ _ | .logical _ op _ _ => some op
  | .access name _ | .assign name _ _ => some name
  | .call callee _ _ => some callee
  | .literal _ _ | .grouping _ _ => none

/-- The name that a statement declares. -/
def Stmt.label? : Stmt → Option String
  | .function name _ _ _ _ _ | .declare name _ _ _ => some name
  | _ => none

/-- A description of nodes, to ask by `fitsExpr` or `fitsStmt` for those that fit it; what is not given does
not matter. -/
structure Query where
  kinds : Option (List NodeKind) := none
  label : Option String := none
  minLine : Option Nat := none
  maxLine : Option Nat := none

namespace Query

/-- Whether a node of a kind with a label on a line fits the description. -/
def fits (q : Query) (kind : NodeKind) (label : Option String) (line : Line) : Bool :=
  q.kinds.all (·.contains kind) && q.label.all (label == some ·) &&
    q.minLine.all (· ≤ line.toNat) && q.maxLine.all (line.toNat ≤ ·)

def fitsExpr (q : Query) (e : Expr) : Bool := q.fits (.expr e.kind) e.label? e.line

def fitsStmt (q : Query) (s : Stmt) : Bool := q.fits (.stmt s.kind) s.label? s.line

end Query

end TreeWalk
