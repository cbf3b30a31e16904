import TreeWalk.Channel

/-! Source text of a tree. An expression pushes its text on the channel; parentheses are written where
an operand binds looser than its place requires, binary operators being left associative. A statement
appends whole lines to the text, indented by a number of blanks per level. -/

namespace TreeWalk

/-- The text written so far, the level of indentation and the blanks per level. -/
structure Printer where
  width : Nat
  level : Nat := 0
  text : String := ""

namespace Printer

section Precedence

def assignPrecedence : Nat := 0
def unaryPrecedence : Nat := 8
def primaryPrecedence : Nat := 9

/-- How tightly an operator between two operands binds; an unknown one binds loosest. -/
def opPrecedence (op : String) : Nat :=
  if op = "||" then 2
  else if op = "&&" then 3
  else if op = "==" ∨ op = "!=" then 4
  else if op = "<" ∨ op = "<=" ∨ op = ">" ∨ op = ">=" then 5
  else if op = "+" ∨ op = "-" then 6
  else if op = "*" ∨ op = "/" ∨ op = "%" then 7
  else 1

def precedence : Expr → Nat
  | .assign .. => assignPrecedence
  | .binary _ op _ _ | .logical _ op _ _ => opPrecedence op
  | .unary .. => unaryPrecedence
  | .literal .. | .grouping .. | .access .. | .call .. => primaryPrecedence

end Precedence

section Expressions

def parenthesize (text : String) : String := "(" ++ text ++ ")"

/-- The text of an operand whose place requires at least `least`. -/
def fit (e : Expr) (least : Nat) (text : String) : String :=
  if precedence e < least then parenthesize text else text

/-- A sign is kept apart from an operand that starts with the same sign. -/
def separator (op operand : String) : String :=
  match op.toList.getLast? with
  | some c => if (c = '-' ∨ c = '+') ∧ operand.toList.head? = some c then " " else ""
  | none => ""

mutual

/-- Visits an expression, which pushes its text. -/
def visit : Expr → Visit Printer String Unit
  | .literal value _ => Visit.push value.display
  | .grouping inner _ => do
    let text ← Visit.result "" inner.line (visit inner)
    Visit.push (parenthesize text)
  | .unary op operand _ => do
    let text ← Visit.result "" operand.line (visit operand)
    let operandText := fit operand unaryPrecedence text
    Visit.push (op ++ separator op operandText ++ operandText)
  | .binary left op right _ | .logical left op right _ => do
    let leftText ← Visit.result "" left.line (visit left)
    let rightText ← Visit.result "" right.line (visit right)
    let least := opPrecedence op
    Visit.push (fit left least leftText ++ " " ++ op ++ " " ++ fit right (least + 1) rightText)
  | .access name _ => Visit.push name
  | .assign name value _ => do
    let text ← Visit.result "" value.line (visit value)
    Visit.push (name ++ " = " ++ text)
  | .call callee arguments _ => do
    let texts ← visitArguments arguments
    Visit.push (callee ++ parenthesize (String.intercalate ", " texts))

/-- The texts of the arguments of a call. -/
def visitArguments : List Expr → Visit Printer String (List String)
  | [] => return []
  | e :: rest => do
    let text ← Visit.result "" e.line (visit e)
    let texts ← visitArguments rest
    return text :: texts

end

/-- The text of an expression inside the text being written. -/
def expr (e : Expr) : Visit Printer String String := Visit.result "" e.line (visit e)

end Expressions

section Statements

def write (s : String) : Visit Printer String Unit := Visit.update fun p => { p with text := p.text ++ s }

def newline : Visit Printer String Unit := write "\n"

def writeIndent : Visit Printer String Unit :=
  Visit.update fun p => { p with text := p.text ++ String.ofList (List.replicate (p.level * p.width) ' ') }

def writeLine (s : String) : Visit Printer String Unit := do
  writeIndent
  write s
  newline

/-- Runs an action one level deeper. -/
def indented (body : Visit Printer String Unit) : Visit Printer String Unit := do
  Visit.update fun p => { p with level := p.level + 1 }
  body
  Visit.update fun p => { p with level := p.level - 1 }

/-- Writes a body in braces after the text of its line, without ending the last line. -/
def braced (body : Visit Printer String Unit) : Visit Printer String Unit := do
  write " \x7b"
  newline
  indented body
  writeIndent
  write "\x7d"

/-- Writes a branch that is a single statement on lines of its own. -/
def lone (body : Visit Printer String Unit) : Visit Printer String Unit := do
  newline
  indented body

/-- Starts an `else`, on the line left open or on a line of its own. -/
def writeElse (isOpen : Bool) : Visit Printer String Unit := do
  if isOpen then write " else"
  else
    writeIndent
    write "else"

def signature (name : String) (returnType : Ty) (parameters : List Parameter) : String :=
  "func " ++ name ++
    parenthesize (String.intercalate ", " (parameters.map fun p => p.name ++ ": " ++ p.type.keyword)) ++
    " -> " ++ returnType.keyword

def declaration (name : String) (type : Ty) : String := "var " ++ name ++ ": " ++ type.keyword

mutual

/-- Writes a statement. -/
def stmt : Stmt → Visit Printer String Unit
  | .function name returnType parameters body _ _ => do
    writeIndent
    write (signature name returnType parameters)
    braced (stmts body)
    newline
  | .block statements _ => do
    writeLine "\x7b"
    indented (stmts statements)
    writeLine "\x7d"
  | .expression e _ => do
    writeLine ((← expr e) ++ ";")
  | .branch condition thenBranch elseBranch _ => do
    let text ← expr condition
    writeIndent
    write ("if " ++ parenthesize text)
    -- A branch in braces leaves its last line open for the `else`.
    let isOpen ← match thenBranch with
      | .block statements _ => do
        braced (stmts statements)
        pure true
      | other => do
        lone (stmt other)
        pure false
    let isOpen ← match elseBranch with
      | none => pure isOpen
      | some (.block statements _) => do
        writeElse isOpen
        braced (stmts statements)
        pure true
      | some other => do
        writeElse isOpen
        lone (stmt other)
        pure false
    if isOpen then newline
  | .print e _ => do
    writeLine ("print " ++ (← expr e) ++ ";")
  | .declare name type initializer _ => do
    match initializer with
    | some e => writeLine (declaration name type ++ " = " ++ (← expr e) ++ ";")
    | none => writeLine (declaration name type ++ ";")
  | .loop condition body _ _ => do
    let text ← expr condition
    writeIndent
    write ("while " ++ parenthesize text)
    braced (stmts body)
    newline
  | .ret value _ => do
    match value with
    | some e => writeLine ("return " ++ (← expr e) ++ ";")
    | none => writeLine "return;"

/-- Writes statements in order. -/
def stmts : List Stmt → Visit Printer String Unit
  | [] => return
  | s :: rest => do
    stmt s
    stmts rest

end

/-- Writes top-level statements, with an empty line on either side of a function; `afterFunction` says
whether a function comes before, and is nothing at the start. -/
def topLevel (afterFunction : Option Bool) : Program → Visit Printer String Unit
  | [] => return
  | s :: rest => do
    match afterFunction with
    | some before => if before || s.isFunction then newline
    | none => pure ()
    stmt s
    topLevel (some s.isFunction) rest

end Statements

/-- A printer that has written nothing. -/
def start (width : Nat) : Visitor Printer String := { state := { width } }

end Printer

/-- The blanks per level where nothing else is said. -/
def defaultWidth : Nat := 4

/-- Source text of an expression. -/
def Expr.text (e : Expr) : String := ((Printer.expr e).run (Printer.start defaultWidth)).1

/-- A text with exactly one line break at its end, or nothing. -/
def endLine (text : String) : String :=
  let kept := (text.toList.reverse.dropWhile (· == '\n')).reverse
  if kept.isEmpty then "" else String.ofList (kept ++ ['\n'])

/-- Source text of a program. -/
def Program.print (program : Program) (width : Nat) : String :=
  endLine ((Printer.topLevel none program).run (Printer.start width)).2.state.text

end TreeWalk
