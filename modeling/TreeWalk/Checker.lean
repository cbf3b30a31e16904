import TreeWalk.Channel
import TreeWalk.Diagnostic
import TreeWalk.Scopes
import TreeWalk.Slot

/-! Declaration check: every name in use is declared where it can be seen. The functions of a list of
statements are registered before the statements are visited, so a call may come before its function;
a variable can be seen from its declaration on, to the end of its scope. Blocks, bodies and branches
have scopes of their own, and the parameters of a function have one around its body. -/

namespace TreeWalk

/-- What the check can find, with the line it is reported on. -/
inductive Fault where
  /-- A second function of the name, the first one being declared on line `first`. -/
  | duplicateFunction (name : String) (line first : Line)
  | duplicateParameter (name function : String) (line : Line)
  | tooManyParameters (function : String) (count limit : Nat) (line : Line)
  | returnOutside (line : Line)
  | undefinedVariable (name : String) (line : Line)
  | undeclaredAssignment (name : String) (line : Line)
  | unknownFunction (name : String) (line : Line)
  /-- A call with the wrong number of arguments of a function declared on line `declared`. -/
  | wrongArity (name : String) (expected got : Nat) (line declared : Line)
deriving DecidableEq, Repr

namespace Fault

def line : Fault → Line
  | .duplicateFunction _ l _ | .duplicateParameter _ _ l | .tooManyParameters _ _ _ l | .returnOutside l
  | .undefinedVariable _ l | .undeclaredAssignment _ l | .unknownFunction _ l | .wrongArity _ _ _ l _ => l

def message : Fault → String
  | .duplicateFunction name _ _ => "duplicate function '" ++ name ++ "' in this scope"
  | .duplicateParameter name function _ =>
    "duplicate parameter '" ++ name ++ "' in function '" ++ function ++ "'"
  | .tooManyParameters function count limit _ =>
    "function '" ++ function ++ "' has " ++ toString count ++ " parameters; at most " ++ toString limit ++
      " are allowed"
  | .returnOutside _ => "'return' outside of a function"
  | .undefinedVariable name _ => "undefined variable '" ++ name ++ "'"
  | .undeclaredAssignment name _ => "assignment to undeclared variable '" ++ name ++ "'"
  | .unknownFunction name _ => "call to unknown function '" ++ name ++ "'"
  | .wrongArity name expected got _ _ =>
    "function '" ++ name ++ "' expects " ++ toString expected ++ " argument(s), got " ++ toString got

def note : Fault → Option Note
  | .duplicateFunction name _ first => some ⟨"'" ++ name ++ "' first declared here", first⟩
  | .wrongArity name _ _ _ declared => some ⟨"'" ++ name ++ "' declared here", declared⟩
  | _ => none

def diagnostic (f : Fault) : Diagnostic := ⟨f.message, f.line, f.note⟩

end Fault

/-- What a call needs to know of a function. -/
structure Signature where
  arity : Nat
  line : Line
deriving DecidableEq, Repr

/-- The state of a check. -/
structure Checker where
  /-- The number of parameters a function may have. -/
  limit : Nat
  functions : Scopes Signature := {}
  /-- The variables that are declared, with their types. -/
  bound : Scopes Ty := {}
  /-- The number of function bodies around the present statement. -/
  functionDepth : Nat := 0
  /-- The faults found so far, in order. -/
  faults : List Fault := []
deriving DecidableEq, Repr

namespace Checker

/-- What a check does to its state, one thing at a time. -/
inductive Step where
  | openScope
  | closeScope
  | enterBody
  | leaveBody
  /-- Declares a function in the innermost scope; one of that name already there stays. -/
  | declareFunction (name : String) (signature : Signature)
  /-- Declares a variable in the innermost scope; one of that name already there stays. -/
  | declareVariable (name : String) (type : Ty)
  | report (fault : Fault)
deriving DecidableEq, Repr

/-- The state after a step. -/
def next (c : Checker) : Step → Checker
  | .openScope => { c with functions := c.functions.push, bound := c.bound.push }
  | .closeScope => { c with functions := c.functions.pop.2, bound := c.bound.pop.2 }
  | .enterBody => { c with functionDepth := c.functionDepth + 1 }
  | .leaveBody => { c with functionDepth := c.functionDepth - 1 }
  | .declareFunction name signature => { c with functions := (c.functions.declare name signature).2 }
  | .declareVariable name type => { c with bound := (c.bound.declare name type).2 }
  | .report fault => { c with faults := c.faults ++ [fault] }

end Checker

/-- A state that a check can run on. It holds a checker, which changes by steps and in no other way; what
else it holds, such as the steps taken, the check does not see. -/
class Checking (σ : Type) where
  checker : σ → Checker
  take : σ → Checker.Step → σ
  checker_take (s : σ) (step : Checker.Step) : checker (take s step) = (checker s).next step

instance : Checking Checker where
  checker c := c
  take := Checker.next
  checker_take _ _ := rfl

namespace Checker

/-- An action of the check; visited expressions push nothing but a mark. -/
abbrev Check (σ : Type) := Visit σ Unit

variable {σ : Type} [Checking σ]

/-- The checker as it stands. -/
def present : Check σ Checker := return Checking.checker (← Visit.state)

def take (step : Step) : Check σ Unit := Visit.update (Checking.take · step)

def report (fault : Fault) : Check σ Unit := take (.report fault)

def reportIf (condition : Prop) [Decidable condition] (fault : Fault) : Check σ Unit :=
  if condition then report fault else return

/-- Registers a function in the innermost scope. -/
def registerFunction (name : String) (signature : Signature) : Check σ Unit := do
  let outcome := ((← present).functions.declare name signature).1
  take (.declareFunction name signature)
  match outcome with
  | .ok () => return
  | .error first => report (.duplicateFunction name signature.line first.line)

/-- Registers the functions declared in a list of statements. -/
def register : List Stmt → Check σ Unit
  | [] => return
  | .function name _ parameters _ _ line :: rest => do
    registerFunction name ⟨parameters.length, line⟩
    register rest
  | _ :: rest => register rest

/-- Binds a parameter of a function. -/
def declareParameter (function : String) (p : Parameter) : Check σ Unit := do
  let outcome := ((← present).bound.declare p.name p.type).1
  take (.declareVariable p.name p.type)
  match outcome with
  | .ok () => return
  | .error _ => report (.duplicateParameter p.name function p.line)

/-- Binds the parameters of a function. -/
def declareParameters (function : String) : List Parameter → Check σ Unit
  | [] => return
  | p :: rest => do
    declareParameter function p
    declareParameters function rest

/-- Checks that a variable in use is bound; otherwise that is the fault. -/
def resolveVariable (name : String) (fault : Fault) : Check σ Unit := do
  reportIf (¬ (← present).bound.contains name) fault

/-- Checks a call whose arguments were visited. -/
def resolveCall (callee : String) (got : Nat) (line : Line) : Check σ Unit := do
  match (← present).functions.lookup callee with
  | none => report (.unknownFunction callee line)
  | some signature =>
    reportIf (signature.arity ≠ got) (.wrongArity callee signature.arity got line signature.line)

mutual

/-- Visits an expression. -/
def visit : Expr → Check σ Unit
  | .literal _ _ => Visit.push ()
  | .grouping inner _ => do
    Visit.result () inner.line (visit inner)
    Visit.push ()
  | .unary _ operand _ => do
    Visit.result () operand.line (visit operand)
    Visit.push ()
  | .binary left _ right _ | .logical left _ right _ => do
    Visit.result () left.line (visit left)
    Visit.result () right.line (visit right)
    Visit.push ()
  | .access name line => do
    resolveVariable name (.undefinedVariable name line)
    Visit.push ()
  | .assign name value line => do
    Visit.result () value.line (visit value)
    resolveVariable name (.undeclaredAssignment name line)
    Visit.push ()
  | .call callee arguments line => do
    visitArguments arguments
    resolveCall callee arguments.length line
    Visit.push ()

/-- Visits the arguments of a call. -/
def visitArguments : List Expr → Check σ Unit
  | [] => return
  | e :: rest => do
    Visit.result () e.line (visit e)
    visitArguments rest

end

def expr (e : Expr) : Check σ Unit := Visit.result () e.line (visit e)

def optionalExpr : Option Expr → Check σ Unit
  | none => return
  | some e => expr e

/-- Does `inner` in a scope of its own. -/
def withScope (inner : Check σ Unit) : Check σ Unit := do
  take .openScope
  inner
  take .closeScope

/-- Visits the statements of a list, which `visits` does, in a scope of their own. -/
def inScope (statements : List Stmt) (visits : Check σ Unit) : Check σ Unit := withScope do
  register statements
  visits

/-- Visits the body of a function. -/
def inFunction (body : Check σ Unit) : Check σ Unit := do
  take .enterBody
  body
  take .leaveBody

/-- Checks the head of a function, then its body in the scope of its parameters. -/
def function (name : String) (parameters : List Parameter) (line : Line) (body : Check σ Unit) :
    Check σ Unit := do
  let limit := (← present).limit
  reportIf (limit < parameters.length) (.tooManyParameters name parameters.length limit line)
  withScope do
    declareParameters name parameters
    inFunction body

mutual

/-- Visits a statement; the slot of a function holds its record. -/
def stmt : Stmt → Check σ Slot
  | .function name returnType parameters body _ line => do
    let before := (← present).faults.length
    function name parameters line (inScope body (stmts body))
    let errors := (← present).faults.length - before
    return .holding (.function ⟨name, parameters.length, returnType, line, errors⟩)
  | .block statements _ => do
    inScope statements (stmts statements)
    return {}
  | .expression e _ => do
    expr e
    return {}
  | .branch condition thenBranch elseBranch _ => do
    expr condition
    match thenBranch with
    | .block statements _ => inScope statements (stmts statements)
    | other => inScope [other] (discard (stmt other))
    match elseBranch with
    | none => pure ()
    | some (.block statements _) => inScope statements (stmts statements)
    | some other => inScope [other] (discard (stmt other))
    return {}
  | .print e _ => do
    expr e
    return {}
  | .declare name type initializer _ => do
    optionalExpr initializer
    take (.declareVariable name type)
    return {}
  | .loop condition body _ _ => do
    expr condition
    inScope body (stmts body)
    return {}
  | .ret value line => do
    reportIf ((← present).functionDepth = 0) (.returnOutside line)
    optionalExpr value
    return {}

/-- Visits statements in order. -/
def stmts : List Stmt → Check σ Unit
  | [] => return
  | s :: rest => do
    discard (stmt s)
    stmts rest

end

/-- Visits top-level statements and gives the records of those that are functions. -/
def topLevel : Program → Check σ (List (Option CheckedFunction))
  | [] => return []
  | s :: rest => do
    let slot ← stmt s
    let records ← topLevel rest
    return slot.function? :: records

def start (limit : Nat) : Visitor Checker Unit := { state := { limit } }

end Checker

/-- The result of a check. -/
structure CheckReport where
  functions : List CheckedFunction
  faults : List Fault
deriving DecidableEq, Repr

namespace CheckReport

def isOk (r : CheckReport) : Bool := r.faults.isEmpty

def diagnostics (r : CheckReport) : List Diagnostic := r.faults.map Fault.diagnostic

end CheckReport

/-- The number of parameters a function may have where nothing else is said. -/
def defaultLimit : Nat := 255

/-- Checks a program, in which a function may have at most `limit` parameters. -/
def Program.check (program : Program) (limit : Nat) : CheckReport :=
  let run : Checker.Check Checker (List (Option CheckedFunction)) := do
    Checker.register program
    Checker.topLevel program
  let (records, visitor) := run.run (Checker.start limit)
  ⟨records.filterMap id, visitor.state.faults⟩

end TreeWalk
