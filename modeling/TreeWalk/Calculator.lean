import TreeWalk.Channel

/-! A stack calculator driven by expressions. It uses the channel freely: its visits may leave no value
or several, and may pop more than they pushed. What goes wrong in the evaluations it makes itself is
kept in a log. -/

namespace TreeWalk

/-- The evaluations that went wrong, in order. -/
abbrev Calculator := List Unbalanced

namespace Calculator

/-- An action of the calculator. -/
abbrev Act := Visit Calculator Int64

/-- The result of an evaluation, or a line in the log. -/
def framed (line : Line) (visit : Act Unit) : Act (Option Int64) := do
  match ← Visit.evaluate line visit with
  | .ok n => return some n
  | .error e =>
    Visit.update (· ++ [e])
    return none

def pushSome : Option Int64 → Act Unit
  | some n => Visit.push n
  | none => return

/-- A letter `p` pops a value, a digit pushes its own. -/
def keystroke (c : Char) : Act Unit := do
  if c = 'p' then discard Visit.pop
  else if c.isDigit then Visit.push (Int64.ofNat (c.toNat - '0'.toNat))

def keystrokes : List Char → Act Unit
  | [] => return
  | c :: rest => do
    keystroke c
    keystrokes rest

def literal : Value → Act Unit
  | .integer n => Visit.push n
  | .string s => keystrokes s.toList
  | _ => return

/-- Applies a unary operator to the value on top. -/
def applyUnary (op : String) : Act Unit := do
  match ← Visit.pop with
  | none => return
  | some n =>
    match op with
    | "-" => Visit.push (-n)
    | "drop" => return
    | "dup" => do
      Visit.push n
      Visit.push n
    | _ => Visit.push n

/-- Adds the two values on top; both are popped in any case. -/
def applyBinary : Act Unit := do
  let right ← Visit.pop
  let left ← Visit.pop
  match left, right with
  | some a, some b => Visit.push (a + b)
  | _, _ => return

/-- Pops a number of values and gives their sum; a missing value counts as zero. -/
def popSum : Nat → Act Int64
  | 0 => return 0
  | count + 1 => do
    let n ← Visit.pop
    let rest ← popSum count
    return n.getD 0 + rest

mutual

/-- Visits an expression. -/
def visit : Expr → Act Unit
  | .literal value _ => literal value
  | .grouping inner _ => visit inner
  | .unary op operand _ =>
    if op = "eval" then do
      pushSome (← framed operand.line (visit operand))
    else do
      visit operand
      applyUnary op
  | .binary left _ right _ => do
    visit left
    visit right
    applyBinary
  | .logical left _ right _ => do
    match ← framed left.line (visit left) with
    | some n => Visit.push n
    | none => pushSome (← framed right.line (visit right))
  | .access name _ => Visit.push (Int64.ofNat name.utf8ByteSize)
  | .assign _ value _ => visit value
  | .call _ arguments _ => do
    visitArguments arguments
    Visit.push (← popSum arguments.length)

def visitArguments : List Expr → Act Unit
  | [] => return
  | e :: rest => do
    visit e
    visitArguments rest

end

/-- Evaluates an expression on a channel of its own. -/
def evaluate (e : Expr) : Act (Except Unbalanced Int64) := Visit.evaluate e.line (visit e)

def start : Visitor Calculator Int64 := { state := [] }

end Calculator

end TreeWalk
