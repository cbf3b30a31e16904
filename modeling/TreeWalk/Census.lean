import TreeWalk.Channel
import TreeWalk.Json.Write
import TreeWalk.Slot
import TreeWalk.Tree.Kind

/-! Counting the nodes of a tree by kind, the depth to which statements nest and the size of the largest
expression that stands in a statement. The bodies of functions and loops are no nodes. -/

namespace TreeWalk

/-- How often each kind occurs; only kinds that occur are listed, in the order of kinds. -/
abbrev Counts := List (NodeKind × Nat)

namespace Counts

/-- Counts one more node of a kind. -/
def tally (kind : NodeKind) : Counts → Counts
  | [] => [(kind, 1)]
  | (k, n) :: rest =>
    if k = kind then (k, n + 1) :: rest
    else if kind.rank < k.rank then (kind, 1) :: (k, n) :: rest
    else (k, n) :: tally kind rest

def count (counts : Counts) (kind : NodeKind) : Nat := (counts.lookup kind).getD 0

end Counts

/-- The result of a census. -/
structure CensusReport where
  counts : Counts := []
  /-- The deepest nesting of statements; a top-level statement is at depth one. -/
  maxDepth : Nat := 0
  /-- The size of the largest expression of a statement, in nodes. -/
  largest : Nat := 0
deriving DecidableEq, Repr

namespace CensusReport

def count (r : CensusReport) (kind : NodeKind) : Nat := r.counts.count kind

def statements (r : CensusReport) : Nat := ((r.counts.filter (·.1.isStmt)).map (·.2)).foldr (· + ·) 0

def expressions (r : CensusReport) : Nat := ((r.counts.filter (!·.1.isStmt)).map (·.2)).foldr (· + ·) 0

def total (r : CensusReport) : Nat := (r.counts.map (·.2)).foldr (· + ·) 0

/-- A line of the report: a name, filled up to sixteen characters, and a number. -/
def row (name : String) (n : Nat) : String :=
  name ++ String.ofList (List.replicate (16 - name.length) ' ') ++ " " ++ toString n

/-- The report as text, without a line break at its end. -/
def text (r : CensusReport) : String :=
  String.intercalate "\n" (r.counts.map (fun (kind, n) => row kind.name n) ++
    [row "statements" r.statements, row "expressions" r.expressions, row "max depth" r.maxDepth])

/-- The report as data. -/
def toJson (r : CensusReport) : Json :=
  .object
    [("counts", .object (r.counts.map fun (kind, n) => (kind.name, .integer n))),
      ("max_depth", .integer r.maxDepth), ("largest_expression", .integer r.largest)]

end CensusReport

/-- The census so far and the number of statements around the present node. -/
structure Census where
  report : CensusReport := {}
  depth : Nat := 0

namespace Census

def tally (kind : NodeKind) : Visit Census Nat Unit :=
  Visit.update fun c => { c with report.counts := c.report.counts.tally kind }

mutual

/-- Visits an expression, which pushes its number of nodes. -/
def visit : Expr → Visit Census Nat Unit
  | .literal _ _ => do
    tally (.expr .literal)
    Visit.push 1
  | .grouping inner _ => do
    tally (.expr .grouping)
    let size ← Visit.result 0 inner.line (visit inner)
    Visit.push (1 + size)
  | .unary _ operand _ => do
    tally (.expr .unary)
    let size ← Visit.result 0 operand.line (visit operand)
    Visit.push (1 + size)
  | .binary left _ right _ => do
    tally (.expr .binary)
    let leftSize ← Visit.result 0 left.line (visit left)
    let rightSize ← Visit.result 0 right.line (visit right)
    Visit.push (1 + (leftSize + rightSize))
  | .logical left _ right _ => do
    tally (.expr .logical)
    let leftSize ← Visit.result 0 left.line (visit left)
    let rightSize ← Visit.result 0 right.line (visit right)
    Visit.push (1 + (leftSize + rightSize))
  | .access _ _ => do
    tally (.expr .access)
    Visit.push 1
  | .assign _ value _ => do
    tally (.expr .assign)
    let size ← Visit.result 0 value.line (visit value)
    Visit.push (1 + size)
  | .call _ arguments _ => do
    tally (.expr .call)
    let size ← visitArguments arguments
    Visit.push (1 + size)

/-- The number of nodes in the arguments of a call. -/
def visitArguments : List Expr → Visit Census Nat Nat
  | [] => return 0
  | e :: rest => do
    let size ← Visit.result 0 e.line (visit e)
    let sizes ← visitArguments rest
    return size + sizes

end

/-- The number of nodes of an expression. -/
def expr (e : Expr) : Visit Census Nat Nat := Visit.result 0 e.line (visit e)

/-- The number of nodes of an expression that stands in a statement. -/
def root (e : Expr) : Visit Census Nat Nat := do
  let size ← expr e
  Visit.update fun c => { c with report.largest := max c.report.largest size }
  return size

def optionalRoot : Option Expr → Visit Census Nat Nat
  | none => return 0
  | some e => root e

/-- Counts a statement whose children `body` visits; the slot holds the number of nodes of all. -/
def enter (kind : StmtKind) (body : Visit Census Nat Nat) : Visit Census Nat Slot := do
  tally (.stmt kind)
  Visit.update fun c => { c with
    depth := c.depth + 1, report.maxDepth := max c.report.maxDepth (c.depth + 1) }
  let children ← body
  Visit.update fun c => { c with depth := c.depth - 1 }
  return .holding (.count (1 + children))

mutual

/-- Visits a statement; the slot holds its number of nodes. -/
def accept : Stmt → Visit Census Nat Slot
  | .function _ _ _ body _ _ => enter .function (stmts body)
  | .block statements _ => enter .block (stmts statements)
  | .expression e _ => enter .expression (root e)
  | .branch condition thenBranch elseBranch _ => enter .branch do
    let size ← root condition
    let thenSize := (← accept thenBranch).count
    let elseSize ← elseStmt elseBranch
    return size + thenSize + elseSize
  | .print e _ => enter .print (root e)
  | .declare _ _ initializer _ => enter .declare (optionalRoot initializer)
  | .loop condition body _ _ => enter .loop do
    let size ← root condition
    let bodySize ← stmts body
    return size + bodySize
  | .ret value _ => enter .ret (optionalRoot value)

/-- Visits statements in order and gives their number of nodes. -/
def stmts : List Stmt → Visit Census Nat Nat
  | [] => return 0
  | s :: rest => do
    let size := (← accept s).count
    let sizes ← stmts rest
    return size + sizes

def elseStmt : Option Stmt → Visit Census Nat Nat
  | none => return 0
  | some s => return (← accept s).count

end

/-- Visits a statement and gives its number of nodes. -/
def stmt (s : Stmt) : Visit Census Nat Nat := return (← accept s).count

def start : Visitor Census Nat := { state := {} }

end Census

/-- The census of a program. -/
def Program.census (program : Program) : CensusReport :=
  ((Census.stmts program).run Census.start).2.state.report

/-- The number of nodes of an expression. -/
def Expr.size (e : Expr) : Nat := ((Census.expr e).run Census.start).1

end TreeWalk
