import TreeWalk.Checker
import TreeWalk.Proofs.Balance
import TreeWalk.Proofs.Tree.Induction

/-! What the declaration check does, without its state. A view is what the check knows at a place in the
program: the functions and variables that can be seen there and how many function bodies are around it.
The faults of an expression or of a statement are a function of the tree and the view alone. Visiting a
statement appends its faults to those found before, restores every scope that it opens, and keeps the
view but for the variable that the statement itself declares. -/

namespace TreeWalk

namespace Scopes

variable {α : Type}

theorem enclosing_declare (s : Scopes α) (x : String) (a : α) :
    (s.declare x a).2.enclosing = s.enclosing := by
  unfold declare
  split <;> rfl

/-- Closing a scope that was opened on `t` gives `t` back, whatever was declared meanwhile. -/
theorem pop_of_enclosing {s t : Scopes α} (h : s.enclosing = t.toList) : s.pop.2 = t := by
  simp [pop, h, toList]

end Scopes

namespace Scoping

/-! ### Views -/

/-- What the check knows at a place of the program. -/
structure View where
  limit : Nat
  functions : Scopes Signature := {}
  bound : Scopes Ty := {}
  functionDepth : Nat := 0

/-- The state of a check with this view, after `faults`. -/
def View.checker (v : View) (faults : List Fault) : Checker :=
  { limit := v.limit, functions := v.functions, bound := v.bound
    functionDepth := v.functionDepth, faults := faults }

/-- The functions that can be seen once those of a list are registered. -/
def registered (functions : Scopes Signature) : List Stmt → Scopes Signature
  | [] => functions
  | .function name _ parameters _ _ line :: rest =>
    registered (functions.declare name ⟨parameters.length, line⟩).2 rest
  | _ :: rest => registered functions rest

/-- The second and later functions of a name in a list. -/
def duplicateFunctions (functions : Scopes Signature) : List Stmt → List Fault
  | [] => []
  | .function name _ parameters _ _ line :: rest =>
    (functions.innermost.lookup name).toList.map (.duplicateFunction name line ·.line) ++
      duplicateFunctions (functions.declare name ⟨parameters.length, line⟩).2 rest
  | _ :: rest => duplicateFunctions functions rest

/-- The variables that can be seen once parameters are declared. -/
def withParameters (bound : Scopes Ty) : List Parameter → Scopes Ty
  | [] => bound
  | p :: rest => withParameters (bound.declare p.name p.type).2 rest

/-- The second and later parameters of a name. -/
def duplicateParameters (function : String) (bound : Scopes Ty) : List Parameter → List Fault
  | [] => []
  | p :: rest =>
    (bound.innermost.lookup p.name).toList.map
        (fun _ => .duplicateParameter p.name function p.line) ++
      duplicateParameters function (bound.declare p.name p.type).2 rest

/-- The variables that can be seen after a statement. -/
def boundAfter (bound : Scopes Ty) : Stmt → Scopes Ty
  | .declare name type _ _ => (bound.declare name type).2
  | _ => bound

def boundAfterAll (bound : Scopes Ty) (statements : List Stmt) : Scopes Ty :=
  statements.foldl boundAfter bound

namespace View

/-- The view in a new scope. -/
def push (v : View) : View := { v with functions := v.functions.push, bound := v.bound.push }

/-- The view at the start of a list of statements that has a scope of its own. -/
def enter (v : View) (statements : List Stmt) : View :=
  { v with functions := registered v.functions.push statements, bound := v.bound.push }

/-- The view around the body of a function. -/
def enterFunction (v : View) (parameters : List Parameter) : View :=
  { v with
    functions := v.functions.push
    bound := withParameters v.bound.push parameters
    functionDepth := v.functionDepth + 1 }

def after (v : View) (s : Stmt) : View := { v with bound := boundAfter v.bound s }

def afterAll (v : View) (statements : List Stmt) : View :=
  { v with bound := boundAfterAll v.bound statements }

/-- What is wrong with a call of `callee` with `got` arguments. -/
def callFaults (v : View) (callee : String) (got : Nat) (line : Line) : List Fault :=
  match v.functions.lookup callee with
  | none => [.unknownFunction callee line]
  | some signature =>
    if signature.arity ≠ got then [.wrongArity callee signature.arity got line signature.line] else []

/-- What is wrong with the head of a function. -/
def headFaults (v : View) (name : String) (parameters : List Parameter) (line : Line) : List Fault :=
  (if v.limit < parameters.length then [.tooManyParameters name parameters.length v.limit line]
    else []) ++ duplicateParameters name v.bound.push parameters

end View

end Scoping

open Scoping

/-! ### Faults -/

mutual

/-- The faults in an expression, in the order of their discovery. -/
def Expr.faults (v : View) : Expr → List Fault
  | .literal _ _ => []
  | .grouping e _ => e.faults v
  | .unary _ e _ => e.faults v
  | .binary a _ b _ | .logical a _ b _ => a.faults v ++ b.faults v
  | .access x l => if v.bound.contains x then [] else [.undefinedVariable x l]
  | .assign x e l =>
    e.faults v ++ if v.bound.contains x then [] else [.undeclaredAssignment x l]
  | .call f es l => Expr.listFaults v es ++ v.callFaults f es.length l

def Expr.listFaults (v : View) : List Expr → List Fault
  | [] => []
  | e :: es => e.faults v ++ Expr.listFaults v es

end

def Expr.optionFaults (v : View) : Option Expr → List Fault
  | none => []
  | some e => e.faults v

mutual

/-- The faults in a statement, in the order of their discovery. -/
def Stmt.faults (v : View) : Stmt → List Fault
  | .function name _ ps body _ l =>
    v.headFaults name ps l ++ (duplicateFunctions (v.enterFunction ps).functions.push body ++
      Stmt.listFaults ((v.enterFunction ps).enter body) body)
  | .block ss _ => duplicateFunctions v.functions.push ss ++ Stmt.listFaults (v.enter ss) ss
  | .expression e _ => e.faults v
  | .branch c s o _ =>
    c.faults v ++
      (match s with
        | .block ss _ => duplicateFunctions v.functions.push ss ++ Stmt.listFaults (v.enter ss) ss
        | other => duplicateFunctions v.functions.push [other] ++ other.faults (v.enter [other])) ++
      (match o with
        | none => []
        | some (.block ss _) =>
          duplicateFunctions v.functions.push ss ++ Stmt.listFaults (v.enter ss) ss
        | some other =>
          duplicateFunctions v.functions.push [other] ++ other.faults (v.enter [other]))
  | .print e _ => e.faults v
  | .declare _ _ e _ => Expr.optionFaults v e
  | .loop c body _ _ =>
    c.faults v ++ (duplicateFunctions v.functions.push body ++ Stmt.listFaults (v.enter body) body)
  | .ret e l => (if v.functionDepth = 0 then [.returnOutside l] else []) ++ Expr.optionFaults v e

/-- The faults in statements that follow one another in a scope. -/
def Stmt.listFaults (v : View) : List Stmt → List Fault
  | [] => []
  | s :: ss => s.faults v ++ Stmt.listFaults (v.after s) ss

end

/-- What the check records about a statement. -/
def Stmt.record (v : View) : Stmt → Option CheckedFunction
  | .function name t ps body k l =>
    some ⟨name, ps.length, t, l, ((Stmt.function name t ps body k l).faults v).length⟩
  | _ => none

/-- The slot with what the check records about a statement. -/
def Stmt.slot (v : View) (s : Stmt) : Slot := ⟨(s.record v).map .function⟩

theorem Stmt.function?_slot (v : View) (s : Stmt) : (s.slot v).function? = s.record v := by
  cases h : s.record v <;> simp [slot, h, Slot.function?, Slot.take, Slot.peek, Content.function?]

/-- What the check records about statements that follow one another in a scope. -/
def Stmt.listRecords (v : View) : List Stmt → List (Option CheckedFunction)
  | [] => []
  | s :: ss => s.record v :: Stmt.listRecords (v.after s) ss

namespace Scoping

/-- The faults in a list of statements with a scope of its own. -/
def scopeFaults (v : View) (statements : List Stmt) : List Fault :=
  duplicateFunctions v.functions.push statements ++ Stmt.listFaults (v.enter statements) statements

theorem faults_branch (v : View) (c : Expr) (s : Stmt) (o : Option Stmt) (l : Line) :
    (Stmt.branch c s o l).faults v = c.faults v ++ scopeFaults v s.branchStatements ++
      o.toList.flatMap fun t => scopeFaults v t.branchStatements := by
  have hlone (s : Stmt) : scopeFaults v [s] =
      duplicateFunctions v.functions.push [s] ++ s.faults (v.enter [s]) := by
    simp [scopeFaults, Stmt.listFaults]
  rw [Stmt.faults.eq_def]
  dsimp only
  congr 1
  · congr 1
    cases s with
    | block ss k => rfl
    | _ => exact (hlone _).symm
  · cases o with
    | none => rfl
    | some t =>
      rw [Option.toList_some, List.flatMap_singleton]
      cases t with
      | block ss k => rfl
      | _ => exact (hlone _).symm

theorem enclosing_registered (functions : Scopes Signature) (statements : List Stmt) :
    (registered functions statements).enclosing = functions.enclosing := by
  induction statements generalizing functions with
  | nil => rfl
  | cons s rest ih =>
    cases s with
    | function name t ps body k l => rw [registered, ih, Scopes.enclosing_declare]
    | _ => exact ih functions

theorem enclosing_withParameters (bound : Scopes Ty) (parameters : List Parameter) :
    (withParameters bound parameters).enclosing = bound.enclosing := by
  induction parameters generalizing bound with
  | nil => rfl
  | cons p rest ih => rw [withParameters, ih, Scopes.enclosing_declare]

theorem enclosing_boundAfterAll (bound : Scopes Ty) (statements : List Stmt) :
    (boundAfterAll bound statements).enclosing = bound.enclosing := by
  induction statements generalizing bound with
  | nil => rfl
  | cons s rest ih =>
    have hs : (boundAfter bound s).enclosing = bound.enclosing := by
      cases s with
      | declare x t e l => exact Scopes.enclosing_declare bound x t
      | _ => rfl
    exact (ih (boundAfter bound s)).trans hs

end Scoping

namespace Checker

open Visit

/-! ### Running the check -/

@[simp] theorem run_take (step : Step) (w : Visitor Checker Unit) :
    StateT.run (take step) w = ((), ⟨w.state.next step, w.channel⟩) := rfl

@[simp] theorem run_present (w : Visitor Checker Unit) : StateT.run present w = (w.state, w) := rfl

variable (v : View) (fs : List Fault) (ch : Channel Unit)

theorem run_reportIf (condition : Prop) [Decidable condition] (f : Fault) :
    StateT.run (reportIf condition f) ⟨v.checker fs, ch⟩ =
      ((), ⟨v.checker (fs ++ if condition then [f] else []), ch⟩) := by
  by_cases h : condition
  · simp [reportIf, h, report, next, View.checker]
  · simp [reportIf, h]

theorem run_registerFunction (name : String) (signature : Signature) :
    StateT.run (registerFunction name signature) ⟨v.checker fs, ch⟩ =
      ((), ⟨View.checker { v with functions := (v.functions.declare name signature).2 }
        (fs ++ (v.functions.innermost.lookup name).toList.map
          (.duplicateFunction name signature.line ·.line)), ch⟩) := by
  cases h : v.functions.innermost.lookup name with
  | none => simp [registerFunction, View.checker, Scopes.declare, h, next]
  | some first => simp [registerFunction, View.checker, Scopes.declare, h, next, report]

theorem run_register (statements : List Stmt) :
    StateT.run (register statements) ⟨v.checker fs, ch⟩ =
      ((), ⟨View.checker { v with functions := registered v.functions statements }
        (fs ++ duplicateFunctions v.functions statements), ch⟩) := by
  induction statements generalizing v fs with
  | nil => simp [register, registered, duplicateFunctions]
  | cons s rest ih =>
    cases s with
    | function name t ps body k l =>
      simp only [register, run_bind, run_registerFunction, ih, registered, duplicateFunctions,
        List.append_assoc]
    | _ => simp only [register, ih, registered, duplicateFunctions]

theorem run_declareParameter (function : String) (p : Parameter) :
    StateT.run (declareParameter function p) ⟨v.checker fs, ch⟩ =
      ((), ⟨View.checker { v with bound := (v.bound.declare p.name p.type).2 }
        (fs ++ (v.bound.innermost.lookup p.name).toList.map
          fun _ => .duplicateParameter p.name function p.line), ch⟩) := by
  cases h : v.bound.innermost.lookup p.name with
  | none => simp [declareParameter, View.checker, Scopes.declare, h, next]
  | some first => simp [declareParameter, View.checker, Scopes.declare, h, next, report]

theorem run_declareParameters (function : String) (parameters : List Parameter) :
    StateT.run (declareParameters function parameters) ⟨v.checker fs, ch⟩ =
      ((), ⟨View.checker { v with bound := withParameters v.bound parameters }
        (fs ++ duplicateParameters function v.bound parameters), ch⟩) := by
  induction parameters generalizing v fs with
  | nil => simp [declareParameters, withParameters, duplicateParameters]
  | cons p rest ih =>
    simp only [declareParameters, run_bind, run_declareParameter, ih, withParameters, duplicateParameters,
      List.append_assoc]

/-- What a check knows, without what it has found. -/
def view (c : Checker) : View := ⟨c.limit, c.functions, c.bound, c.functionDepth⟩

/-- Reports the faults that a view gives rise to. -/
def adding (faults : View → List Fault) (c : Checker) : Checker :=
  { c with faults := c.faults ++ faults c.view }

theorem adding_adding (faults more : View → List Fault) (c : Checker) :
    (c.adding faults).adding more = c.adding fun v => faults v ++ more v := by
  simp [adding, view]

theorem run_resolveVariable (x : String) (fault : Fault) (w : Visitor Checker Unit) :
    StateT.run (resolveVariable x fault) w =
      ((), ⟨w.state.adding fun v => if v.bound.contains x then [] else [fault], w.channel⟩) := by
  have hrun := run_reportIf w.state.view w.state.faults w.channel (¬ w.state.bound.contains x) fault
  refine Eq.trans hrun ?_
  cases h : w.state.bound.contains x <;> simp [h, adding, view, View.checker]

theorem run_resolveCall (callee : String) (got : Nat) (line : Line) (w : Visitor Checker Unit) :
    StateT.run (resolveCall callee got line) w =
      ((), ⟨w.state.adding fun v => v.callFaults callee got line, w.channel⟩) := by
  cases h : w.state.functions.lookup callee with
  | none => simp [resolveCall, h, adding, view, View.callFaults, report, next]
  | some signature =>
    by_cases ha : signature.arity = got <;>
      simp [resolveCall, h, ha, adding, view, View.callFaults, reportIf, report, next]

theorem run_visitArguments (es : List Expr)
    (h : ∀ e ∈ es, Leaves (visit e) () (adding fun v => e.faults v)) (w : Visitor Checker Unit) :
    StateT.run (visitArguments es) w =
      ((), ⟨w.state.adding fun v => Expr.listFaults v es, w.channel⟩) := by
  induction es generalizing w with
  | nil => simp [visitArguments, adding, Expr.listFaults]
  | cons e rest ih =>
    have hrest := ih fun e he => h e (List.mem_cons_of_mem _ he)
    simp only [visitArguments, run_bind, run_result (h e List.mem_cons_self), hrest, adding_adding,
      Expr.listFaults]

/-- Visiting an expression reports its faults, keeps the view and leaves one mark. -/
theorem visit_leaves (e : Expr) : Leaves (visit e) () (adding fun v => e.faults v) := by
  induction e using Expr.induct with
  | literal value l =>
    intro w
    simp [visit, Expr.faults, adding]
  | grouping e l ih | unary op e l ih =>
    intro w
    simp only [visit, Expr.faults, run_bind, run_result ih, run_push]
  | binary a op b l iha ihb | logical a op b l iha ihb =>
    intro w
    simp only [visit, Expr.faults, run_bind, run_result iha, run_result ihb, run_push, adding_adding]
  | access x l =>
    intro w
    simp only [visit, Expr.faults, run_bind, run_resolveVariable, run_push]
  | assign x e l ih =>
    intro w
    simp only [visit, Expr.faults, run_bind, run_result ih, run_resolveVariable, run_push, adding_adding]
  | call f es l ih =>
    intro w
    simp only [visit, Expr.faults, run_bind, run_visitArguments es ih, run_resolveCall, run_push,
      adding_adding]

theorem run_expr (e : Expr) :
    StateT.run (expr e) ⟨v.checker fs, ch⟩ = ((), ⟨v.checker (fs ++ e.faults v), ch⟩) :=
  run_result (visit_leaves e) () e.line _

theorem run_optionalExpr (e : Option Expr) :
    StateT.run (optionalExpr e) ⟨v.checker fs, ch⟩ =
      ((), ⟨v.checker (fs ++ Expr.optionFaults v e), ch⟩) := by
  cases e with
  | none => simp [optionalExpr, Expr.optionFaults]
  | some e => exact run_expr v fs ch e

/-- Closing a scope after what was done in it gives the old view, as only the innermost scopes changed. -/
theorem run_withScope {inner : Check Checker Unit} (inside : View) {found : List Fault}
    (h : StateT.run inner ⟨v.push.checker fs, ch⟩ = ((), ⟨inside.checker (fs ++ found), ch⟩))
    (hfunctions : inside.functions.enclosing = v.functions.toList)
    (hbound : inside.bound.enclosing = v.bound.toList) (hlimit : inside.limit = v.limit)
    (hdepth : inside.functionDepth = v.functionDepth) :
    StateT.run (withScope inner) ⟨v.checker fs, ch⟩ = ((), ⟨v.checker (fs ++ found), ch⟩) := by
  have hopen : StateT.run (take .openScope) ⟨v.checker fs, ch⟩ = ((), ⟨v.push.checker fs, ch⟩) := rfl
  rw [withScope, run_bind, hopen, run_bind, h, run_take]
  simp [next, View.checker, Scopes.pop_of_enclosing hfunctions, Scopes.pop_of_enclosing hbound, hlimit,
    hdepth]

/-- A scope that is closed after its statements leaves the view as it was. -/
theorem run_inScope {statements : List Stmt} {visits : Check Checker Unit} {found : List Fault}
    (h : ∀ fs, StateT.run visits ⟨(v.enter statements).checker fs, ch⟩ =
      ((), ⟨((v.enter statements).afterAll statements).checker (fs ++ found), ch⟩)) :
    StateT.run (inScope statements visits) ⟨v.checker fs, ch⟩ =
      ((), ⟨v.checker (fs ++ (duplicateFunctions v.functions.push statements ++ found)), ch⟩) := by
  have hregister := run_register v.push fs ch statements
  refine run_withScope v fs ch ((v.enter statements).afterAll statements) ?_
    (enclosing_registered v.functions.push statements)
    (enclosing_boundAfterAll v.bound.push statements) rfl rfl
  rw [run_bind, hregister, ← List.append_assoc]
  exact h _

theorem run_inFunction {body : Check Checker Unit} {found : List Fault}
    (h : StateT.run body ⟨View.checker { v with functionDepth := v.functionDepth + 1 } fs, ch⟩ =
      ((), ⟨View.checker { v with functionDepth := v.functionDepth + 1 } (fs ++ found), ch⟩)) :
    StateT.run (inFunction body) ⟨v.checker fs, ch⟩ = ((), ⟨v.checker (fs ++ found), ch⟩) := by
  have hin : StateT.run (take .enterBody) ⟨v.checker fs, ch⟩ =
      ((), ⟨View.checker { v with functionDepth := v.functionDepth + 1 } fs, ch⟩) := rfl
  rw [inFunction, run_bind, hin, run_bind, h]
  rfl

/-- The scope of the parameters is closed after the body, and the function is left. -/
theorem run_function {name : String} {parameters : List Parameter} {line : Line}
    {body : Check Checker Unit} {found : List Fault}
    (h : ∀ fs, StateT.run body ⟨(v.enterFunction parameters).checker fs, ch⟩ =
      ((), ⟨(v.enterFunction parameters).checker (fs ++ found), ch⟩)) :
    StateT.run (function name parameters line body) ⟨v.checker fs, ch⟩ =
      ((), ⟨v.checker (fs ++ (v.headFaults name parameters line ++ found)), ch⟩) := by
  -- The view between the scope of the parameters and the body.
  have hbody (fs : List Fault) := run_inFunction
    { v.enterFunction parameters with functionDepth := v.functionDepth } fs ch (h fs)
  have hparameters (fs : List Fault) := run_declareParameters v.push fs ch name parameters
  have hscope (fs : List Fault) : StateT.run (withScope do
        declareParameters name parameters
        inFunction body) ⟨v.checker fs, ch⟩ =
      ((), ⟨v.checker (fs ++ (duplicateParameters name v.bound.push parameters ++ found)), ch⟩) := by
    refine run_withScope v fs ch { v.enterFunction parameters with functionDepth := v.functionDepth } ?_ rfl
      (enclosing_withParameters v.bound.push parameters) rfl rfl
    rw [run_bind, hparameters, ← List.append_assoc]
    exact hbody _
  rw [function, run_bind, run_present, run_bind, run_reportIf, hscope, View.headFaults]
  simp only [List.append_assoc]
  rfl

/-- Visiting the statement gives its record, adds its faults and moves the view on. -/
def Tracks (s : Stmt) : Prop :=
  ∀ (v : View) (fs : List Fault) (ch : Channel Unit), StateT.run (stmt s) ⟨v.checker fs, ch⟩ =
    (s.slot v, ⟨(v.after s).checker (fs ++ s.faults v), ch⟩)

theorem run_stmts {ss : List Stmt} (h : ∀ s ∈ ss, Tracks s) :
    StateT.run (stmts ss) ⟨v.checker fs, ch⟩ =
      ((), ⟨(v.afterAll ss).checker (fs ++ Stmt.listFaults v ss), ch⟩) := by
  induction ss generalizing v fs with
  | nil => simp [stmts, View.afterAll, boundAfterAll, Stmt.listFaults]
  | cons s rest ih =>
    have hs := h s List.mem_cons_self v fs ch
    have hrest := ih (v.after s) (fs ++ s.faults v) fun t ht => h t (List.mem_cons_of_mem s ht)
    have hdiscard : StateT.run (discard (stmt s)) ⟨v.checker fs, ch⟩ =
        ((), (StateT.run (stmt s) ⟨v.checker fs, ch⟩).2) := rfl
    rw [stmts, run_bind, hdiscard, hs]
    refine Eq.trans hrest ?_
    rw [Stmt.listFaults, List.append_assoc]
    rfl

theorem run_scope {ss : List Stmt} (h : ∀ s ∈ ss, Tracks s) :
    StateT.run (inScope ss (stmts ss)) ⟨v.checker fs, ch⟩ =
      ((), ⟨v.checker (fs ++ scopeFaults v ss), ch⟩) :=
  run_inScope v fs ch fun fs => run_stmts (v.enter ss) fs ch h

/-- The branches of a statement are visited as scopes. -/
theorem stmt_branch {σ : Type} [Checking σ] (c : Expr) (s : Stmt) (o : Option Stmt) (l : Line) :
    (stmt (.branch c s o l) : Check σ Slot) = (do
      expr c
      inScope s.branchStatements (stmts s.branchStatements)
      match o with
      | none => pure ()
      | some t => inScope t.branchStatements (stmts t.branchStatements)
      return {}) := by
  -- The visit of a lone branch and that of the list of it alone are the same action by unfolding.
  rw [stmt.eq_def]
  dsimp only
  congr 1
  funext _
  cases o with
  | none => cases s <;> rfl
  | some t => cases s <;> cases t <;> rfl

theorem tracks (s : Stmt) : Tracks s := by
  induction s using Stmt.scopeInduct with
  | function x t ps body k l ih =>
    intro v fs ch
    have hbody (fs : List Fault) := run_scope (v.enterFunction ps) fs ch ih
    rw [stmt, run_bind, run_present, run_bind, run_function v fs ch hbody, run_bind, run_present, run_pure]
    simp [Stmt.slot, Slot.holding, Stmt.record, Stmt.faults, View.after, boundAfter, scopeFaults,
      View.checker]
  | block ss l ih =>
    intro v fs ch
    rw [stmt, run_bind, run_scope v fs ch ih]
    rfl
  | expression e l | print e l =>
    intro v fs ch
    rw [stmt, run_bind, run_expr]
    rfl
  | branch c s o l ihs iho =>
    intro v fs ch
    rw [stmt_branch, run_bind, run_expr, run_bind, run_scope _ _ _ ihs, faults_branch]
    cases o with
    | none => simp [Stmt.slot, Stmt.record, View.after, boundAfter]
    | some t =>
      rw [run_bind, run_scope _ _ _ (iho t rfl)]
      simp [Stmt.slot, Stmt.record, View.after, boundAfter]
  | declare x t e l =>
    intro v fs ch
    rw [stmt, run_bind, run_optionalExpr]
    rfl
  | loop c body k l ih =>
    intro v fs ch
    rw [stmt, run_bind, run_expr, run_bind, run_scope _ _ _ ih]
    simp [Stmt.slot, Stmt.record, Stmt.faults, View.after, boundAfter, scopeFaults]
  | ret e l =>
    intro v fs ch
    rw [stmt, run_bind, run_present, run_bind, run_reportIf, run_bind, run_optionalExpr, run_pure,
      Stmt.faults, List.append_assoc]
    rfl

theorem run_topLevel (u : Program) :
    StateT.run (topLevel u) ⟨v.checker fs, ch⟩ =
      (Stmt.listRecords v u, ⟨(v.afterAll u).checker (fs ++ Stmt.listFaults v u), ch⟩) := by
  induction u generalizing v fs with
  | nil => simp [topLevel, Stmt.listRecords, View.afterAll, boundAfterAll, Stmt.listFaults]
  | cons s rest ih =>
    rw [topLevel, run_bind, tracks s, run_bind, ih, run_pure, Stmt.function?_slot, Stmt.listRecords,
      Stmt.listFaults, List.append_assoc]
    rfl

end Checker

/-- The view at the start of a program. -/
def Program.view (u : Program) (limit : Nat) : View := { limit, functions := registered {} u }

/-- A check finds the functions declared twice at the top level, then the faults of the statements. -/
theorem Program.check_eq (u : Program) (limit : Nat) :
    u.check limit = ⟨(Stmt.listRecords (u.view limit) u).filterMap id,
      duplicateFunctions {} u ++ Stmt.listFaults (u.view limit) u⟩ := by
  have hregister : StateT.run (Checker.register u) (Checker.start limit) =
      ((), ⟨(u.view limit).checker (duplicateFunctions {} u), {}⟩) :=
    Checker.run_register { limit } [] {} u
  have hrun := Checker.run_topLevel (u.view limit) (duplicateFunctions {} u) {} u
  rw [Program.check, Visit.run_bind, hregister, hrun]
  rfl

end TreeWalk
