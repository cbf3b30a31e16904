import TreeWalk.Decimal.Remainder
import TreeWalk.Printer
import TreeWalk.Slot

/-! Constant expressions. A visited expression pushes its value if the value is known from the
expression alone: the operators are partial operations on values, undefined on operands of the wrong
types, on overflow and on division by zero. Every expression of a statement that is constant, and not
a bare literal, is listed with its value. -/

namespace TreeWalk

namespace Value

/-- An integer, if it fits sixty-four bits. -/
def checked (n : Int) : Option Value :=
  if Int64.minValue.toInt ≤ n ∧ n ≤ Int64.maxValue.toInt then some (.integer (Int64.ofInt n)) else none

def negate : Value → Option Value
  | .integer n => checked (-n.toInt)
  | .double x => some (.double (-x))
  | _ => none

def complement : Value → Option Value
  | .boolean b => some (.boolean !b)
  | _ => none

/-- The value of an operator before its operand. -/
def unary (op : String) (v : Value) : Option Value :=
  match op with
  | "-" => v.negate
  | "!" => v.complement
  | _ => none

/-- Integer arithmetic. Division cuts off toward zero, and a remainder is there only if the quotient
is. -/
def integerOp (op : String) (a b : Int) : Option Value :=
  match op with
  | "+" => checked (a + b)
  | "-" => checked (a - b)
  | "*" => checked (a * b)
  | "/" => if b = 0 then none else checked (a.tdiv b)
  | "%" => if b = 0 then none else (checked (a.tdiv b)).bind fun _ => checked (a.tmod b)
  | _ => none

def doubleOp (op : String) (a b : Float) : Option Value :=
  match op with
  | "+" => some (.double (a + b))
  | "-" => some (.double (a - b))
  | "*" => some (.double (a * b))
  | "/" => if b == 0 then none else some (.double (a / b))
  | "%" => if b == 0 then none else some (.double (Decimal.remainder a b))
  | _ => none

def arithmetic (op : String) : Value → Value → Option Value
  | .integer a, .integer b => integerOp op a.toInt b.toInt
  | .double a, .double b => doubleOp op a b
  | .string a, .string b => if op = "+" then some (.string (a ++ b)) else none
  | _, _ => none

/-- Whether two values of one type are equal; values of different types do not compare. -/
def equal (a b : Value) : Option Bool := if a.type = b.type then some (a.same b) else none

def compareDoubles (a b : Float) : Option Ordering :=
  if a < b then some .lt else if a == b then some .eq else if b < a then some .gt else none

/-- The order of two numbers or two strings of one type. -/
def order : Value → Value → Option Ordering
  | .integer a, .integer b => some (compare a.toInt b.toInt)
  | .double a, .double b => compareDoubles a b
  | .string a, .string b => some (compareOfLessAndEq a b)
  | _, _ => none

/-- The value of an operator between two operands. -/
def binary (op : String) (a b : Value) : Option Value :=
  match op with
  | "==" => (equal a b).map .boolean
  | "!=" => (equal a b).map fun same => .boolean !same
  | "<" => (order a b).map fun o => .boolean o.isLT
  | "<=" => (order a b).map fun o => .boolean o.isLE
  | ">" => (order a b).map fun o => .boolean o.isGT
  | ">=" => (order a b).map fun o => .boolean o.isGE
  | op => arithmetic op a b

/-- The value of a logical operator. The left operand alone may settle it. -/
def logical (op : String) (a b : Option Value) : Option Value :=
  match op, a, b with
  | "&&", some (.boolean false), _ => some (.boolean false)
  | "||", some (.boolean true), _ => some (.boolean true)
  | "&&", some (.boolean true), some (.boolean b) => some (.boolean b)
  | "||", some (.boolean false), some (.boolean b) => some (.boolean b)
  | _, _, _ => none

end Value

/-- A constant expression of a statement: its line, its source text and its value. -/
structure Folded where
  line : Line
  expression : String
  value : Value

def Folded.text (f : Folded) : String :=
  "line " ++ toString f.line.toNat ++ ": " ++ f.expression ++ " => " ++ f.value.display

/-- The constant expressions found so far. -/
structure Folder where
  folded : List Folded := []

namespace Folder

/-- Visits an expression, which pushes its value if it is constant. -/
def visit : Expr → Visit Folder (Option Value) Unit
  | .literal value _ => Visit.push (some value)
  | .grouping inner _ => do
    let value ← Visit.result none inner.line (visit inner)
    Visit.push value
  | .unary op operand _ => do
    let value ← Visit.result none operand.line (visit operand)
    Visit.push (value.bind (Value.unary op))
  | .binary left op right _ => do
    let a ← Visit.result none left.line (visit left)
    let b ← Visit.result none right.line (visit right)
    Visit.push (a.bind fun a => b.bind fun b => Value.binary op a b)
  | .logical left op right _ => do
    let a ← Visit.result none left.line (visit left)
    let b ← Visit.result none right.line (visit right)
    Visit.push (Value.logical op a b)
  | .access .. | .assign .. | .call .. => Visit.push none

/-- The value of an expression, if it is constant. -/
def expr (e : Expr) : Visit Folder (Option Value) (Option Value) := Visit.result none e.line (visit e)

/-- Lists an expression of a statement if it is constant and no literal; gives how many were listed. -/
def root (e : Expr) : Visit Folder (Option Value) Nat := do
  match ← expr e with
  | none => return 0
  | some value =>
    if e.isLiteral then return 0
    Visit.update fun f => { f with folded := f.folded ++ [⟨e.line, e.text, value⟩] }
    return 1

def optionalRoot : Option Expr → Visit Folder (Option Value) Nat
  | none => return 0
  | some e => root e

mutual

/-- Visits a statement; the slot holds how many expressions were listed. -/
def accept : Stmt → Visit Folder (Option Value) Slot
  | .function _ _ _ body _ _ => return .holding (.count (← stmts body))
  | .block statements _ => return .holding (.count (← stmts statements))
  | .expression e _ => return .holding (.count (← root e))
  | .branch condition thenBranch elseBranch _ => do
    let n ← root condition
    let thenCount := (← accept thenBranch).count
    let elseCount ← elseStmt elseBranch
    return .holding (.count (n + thenCount + elseCount))
  | .print e _ => return .holding (.count (← root e))
  | .declare _ _ initializer _ => return .holding (.count (← optionalRoot initializer))
  | .loop condition body _ _ => do
    let n ← root condition
    let bodyCount ← stmts body
    return .holding (.count (n + bodyCount))
  | .ret value _ => return .holding (.count (← optionalRoot value))

/-- Visits statements in order and gives how many expressions were listed. -/
def stmts : List Stmt → Visit Folder (Option Value) Nat
  | [] => return 0
  | s :: rest => do
    let n := (← accept s).count
    let others ← stmts rest
    return n + others

def elseStmt : Option Stmt → Visit Folder (Option Value) Nat
  | none => return 0
  | some s => return (← accept s).count

end

/-- Visits a statement and gives how many expressions were listed. -/
def stmt (s : Stmt) : Visit Folder (Option Value) Nat := return (← accept s).count

def start : Visitor Folder (Option Value) := { state := {} }

end Folder

/-- The value of an expression, if it is constant. -/
def Expr.fold (e : Expr) : Option Value := ((Folder.expr e).run Folder.start).1

/-- The constant expressions of a program, in source order. -/
def Program.fold (program : Program) : List Folded :=
  ((Folder.stmts program).run Folder.start).2.state.folded

end TreeWalk
