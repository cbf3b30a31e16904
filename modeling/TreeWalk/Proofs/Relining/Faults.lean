import TreeWalk.Proofs.Relining.Trees
import TreeWalk.Proofs.Scoping.Effect

/-! Checks of trees on other lines. A signature holds the line of its function beside its arity, so the
functions that can be seen change with the lines; but which functions and variables these are does not
change. The faults found are the same on the moved lines, those of the notes included, and so are the
records of functions. -/

namespace TreeWalk

/-! ### Scopes -/

namespace Scopes

variable {α β : Type} (g : α → β)

/-- The same scopes with every bound value changed by `g`. -/
def map (s : Scopes α) : Scopes β :=
  ⟨s.innermost.map (Prod.map id g), s.enclosing.map (List.map (Prod.map id g))⟩

theorem toList_map (s : Scopes α) : (s.map g).toList = s.toList.map (List.map (Prod.map id g)) := rfl

theorem push_map (s : Scopes α) : (s.map g).push = s.push.map g := rfl

theorem lookup_scope_map (x : String) (scope : Scope α) :
    List.lookup x (scope.map (Prod.map id g)) = (scope.lookup x).map g := by
  induction scope with
  | nil => rfl
  | cons b scope ih =>
    obtain ⟨y, a⟩ := b
    rw [List.map_cons, Prod.map_apply, id, List.lookup_cons, List.lookup_cons, ih]
    cases x == y <;> rfl

theorem declare_map (s : Scopes α) (x : String) (a : α) :
    ((s.map g).declare x (g a)).2 = (s.declare x a).2.map g := by
  have hlookup := lookup_scope_map g x s.innermost
  cases h : s.innermost.lookup x with
  | none =>
    rw [h, Option.map_none] at hlookup
    simp [declare, map, h, hlookup]
  | some b =>
    rw [h, Option.map_some] at hlookup
    simp [declare, map, h, hlookup]

theorem lookup_map (s : Scopes α) (x : String) : (s.map g).lookup x = (s.lookup x).map g := by
  rw [lookup, lookup, toList_map]
  induction s.toList with
  | nil => rfl
  | cons scope scopes ih =>
    rw [List.map_cons, List.findSome?_cons, List.findSome?_cons, lookup_scope_map, ih]
    cases scope.lookup x <;> rfl

end Scopes

/-! ### Views and faults -/

section

variable (f : Line → Line)

def Signature.relined (s : Signature) : Signature := { s with line := f s.line }

def Fault.relined : Fault → Fault
  | .duplicateFunction x l first => .duplicateFunction x (f l) (f first)
  | .duplicateParameter x g l => .duplicateParameter x g (f l)
  | .tooManyParameters g n m l => .tooManyParameters g n m (f l)
  | .returnOutside l => .returnOutside (f l)
  | .undefinedVariable x l => .undefinedVariable x (f l)
  | .undeclaredAssignment x l => .undeclaredAssignment x (f l)
  | .unknownFunction g l => .unknownFunction g (f l)
  | .wrongArity g n m l declared => .wrongArity g n m (f l) (f declared)

def CheckedFunction.relined (r : CheckedFunction) : CheckedFunction := { r with line := f r.line }

def CheckReport.relined (r : CheckReport) : CheckReport :=
  ⟨r.functions.map (CheckedFunction.relined f), r.faults.map (Fault.relined f)⟩

end

namespace Scoping

variable (f : Line → Line)

/-- The view at the same place of the tree on other lines. -/
def View.relined (v : View) : View := { v with functions := v.functions.map (Signature.relined f) }

theorem registered_relined (functions : Scopes Signature) (ss : List Stmt) :
    registered (functions.map (Signature.relined f)) (Stmt.listRelined f ss) =
      (registered functions ss).map (Signature.relined f) := by
  induction ss generalizing functions with
  | nil => rfl
  | cons s ss ih =>
    cases s with
    | function x t ps body k l =>
      have hdeclare := functions.declare_map (Signature.relined f) x ⟨ps.length, l⟩
      rw [Stmt.listRelined, Stmt.relined, registered, registered, List.length_map, ← ih, ← hdeclare]
      rfl
    | _ => exact ih functions

theorem duplicateFunctions_relined (functions : Scopes Signature) (ss : List Stmt) :
    duplicateFunctions (functions.map (Signature.relined f)) (Stmt.listRelined f ss) =
      (duplicateFunctions functions ss).map (Fault.relined f) := by
  induction ss generalizing functions with
  | nil => rfl
  | cons s ss ih =>
    cases s with
    | function x t ps body k l =>
      have hdeclare := functions.declare_map (Signature.relined f) x ⟨ps.length, l⟩
      have hlookup : (functions.map (Signature.relined f)).innermost.lookup x =
          (functions.innermost.lookup x).map (Signature.relined f) :=
        Scopes.lookup_scope_map _ x functions.innermost
      rw [Stmt.listRelined, Stmt.relined, duplicateFunctions, duplicateFunctions, List.length_map,
        List.map_append, ← ih, ← hdeclare, hlookup]
      cases functions.innermost.lookup x <;> rfl
    | _ => exact ih functions

theorem withParameters_relined (bound : Scopes Ty) (ps : List Parameter) :
    withParameters bound (ps.map (Parameter.relined f)) = withParameters bound ps := by
  induction ps generalizing bound with
  | nil => rfl
  | cons p ps ih => exact ih (bound.declare p.name p.type).2

theorem duplicateParameters_relined (function : String) (bound : Scopes Ty) (ps : List Parameter) :
    duplicateParameters function bound (ps.map (Parameter.relined f)) =
      (duplicateParameters function bound ps).map (Fault.relined f) := by
  induction ps generalizing bound with
  | nil => rfl
  | cons p ps ih =>
    rw [List.map_cons, duplicateParameters, duplicateParameters, List.map_append, ← ih]
    cases h : bound.innermost.lookup p.name <;> simp [Parameter.relined, h, Fault.relined]

namespace View

theorem enter_relined (v : View) (ss : List Stmt) :
    (v.relined f).enter (Stmt.listRelined f ss) = (v.enter ss).relined f := by
  have hregistered := registered_relined f v.functions.push ss
  simp only [enter, relined, Scopes.push_map, hregistered]

theorem enterFunction_relined (v : View) (ps : List Parameter) :
    (v.relined f).enterFunction (ps.map (Parameter.relined f)) = (v.enterFunction ps).relined f := by
  simp only [enterFunction, relined, Scopes.push_map, withParameters_relined]

theorem after_relined (v : View) (s : Stmt) : (v.relined f).after (s.relined f) = (v.after s).relined f := by
  cases s <;> rfl

theorem callFaults_relined (v : View) (callee : String) (got : Nat) (l : Line) :
    (v.relined f).callFaults callee got (f l) = (v.callFaults callee got l).map (Fault.relined f) := by
  have hlookup : (v.relined f).functions.lookup callee =
      (v.functions.lookup callee).map (Signature.relined f) := Scopes.lookup_map _ _ _
  rw [callFaults, callFaults, hlookup]
  cases v.functions.lookup callee with
  | none => rfl
  | some signature =>
    by_cases h : signature.arity = got <;> simp [Signature.relined, h, Fault.relined]

theorem headFaults_relined (v : View) (name : String) (ps : List Parameter) (l : Line) :
    (v.relined f).headFaults name (ps.map (Parameter.relined f)) (f l) =
      (v.headFaults name ps l).map (Fault.relined f) := by
  rw [headFaults, headFaults, List.length_map, duplicateParameters_relined, List.map_append]
  by_cases h : v.limit < ps.length <;> simp [relined, h, Fault.relined]

end View

end Scoping

open Scoping

/-! ### Trees -/

variable (f : Line → Line)

/-- The faults of a tree on other lines are its faults on these lines. -/
abbrev Expr.FaultsMove (e : Expr) : Prop :=
  ∀ v : View, (e.relined f).faults (v.relined f) = (e.faults v).map (Fault.relined f)

theorem Expr.listFaults_relined {es : List Expr} (h : ∀ e ∈ es, e.FaultsMove f) (v : View) :
    listFaults (v.relined f) (listRelined f es) = (listFaults v es).map (Fault.relined f) := by
  induction es with
  | nil => rfl
  | cons e es ih =>
    rw [listRelined, listFaults, listFaults, List.map_append, h e List.mem_cons_self,
      ih fun e he => h e (List.mem_cons_of_mem _ he)]

theorem Expr.faults_relined (e : Expr) : e.FaultsMove f := by
  induction e using Expr.induct with
  | literal w l => exact fun v => rfl
  | grouping e l ih | unary op e l ih => exact ih
  | binary a op b l iha ihb | logical a op b l iha ihb =>
    intro v
    rw [relined, faults, faults, List.map_append, iha, ihb]
  | access x l =>
    intro v
    have hbound : (v.relined f).bound = v.bound := rfl
    rw [relined, faults, faults, hbound]
    split <;> rfl
  | assign x e l ih =>
    intro v
    have hbound : (v.relined f).bound = v.bound := rfl
    rw [relined, faults, faults, List.map_append, ih, hbound]
    split <;> rfl
  | call g es l ih =>
    intro v
    rw [relined, faults, faults, List.map_append, listFaults_relined f ih, length_listRelined,
      View.callFaults_relined]

theorem Expr.optionFaults_relined (e : Option Expr) (v : View) :
    optionFaults (v.relined f) (e.map (relined f)) = (optionFaults v e).map (Fault.relined f) := by
  cases e with
  | none => rfl
  | some e => exact e.faults_relined f v

namespace Stmt

abbrev FaultsMove (s : Stmt) : Prop :=
  ∀ v : View, (s.relined f).faults (v.relined f) = (s.faults v).map (Fault.relined f)

theorem listFaults_relined {ss : List Stmt} (h : ∀ s ∈ ss, s.FaultsMove f) (v : View) :
    listFaults (v.relined f) (listRelined f ss) = (listFaults v ss).map (Fault.relined f) := by
  induction ss generalizing v with
  | nil => rfl
  | cons s ss ih =>
    rw [listRelined, listFaults, listFaults, List.map_append, h s List.mem_cons_self, View.after_relined,
      ih fun t ht => h t (List.mem_cons_of_mem _ ht)]

theorem scopeFaults_relined {ss : List Stmt} (h : ∀ s ∈ ss, s.FaultsMove f) (v : View) :
    scopeFaults (v.relined f) (listRelined f ss) = (scopeFaults v ss).map (Fault.relined f) := by
  rw [scopeFaults, scopeFaults, List.map_append, View.enter_relined, listFaults_relined f h,
    ← duplicateFunctions_relined]
  rfl

theorem faults_relined (s : Stmt) : s.FaultsMove f := by
  induction s using Stmt.scopeInduct with
  | function x t ps body k l ih =>
    intro v
    have hbody := scopeFaults_relined f ih (v.enterFunction ps)
    rw [scopeFaults, scopeFaults, ← View.enterFunction_relined] at hbody
    rw [relined, faults, faults, List.map_append, View.headFaults_relined, hbody]
  | block ss l ih => exact scopeFaults_relined f ih
  | expression e l | print e l => exact e.faults_relined f
  | branch c s o l ihs iho =>
    intro v
    rw [relined, faults_branch, faults_branch, branchStatements_relined, c.faults_relined,
      scopeFaults_relined f ihs, List.map_append, List.map_append]
    cases o with
    | none => rfl
    | some t =>
      have ht := scopeFaults_relined f (iho t rfl) v
      simpa [optionRelined, branchStatements_relined] using ht
  | declare x t e l => exact Expr.optionFaults_relined f e
  | loop c body k l ih =>
    intro v
    have hbody := scopeFaults_relined f ih v
    rw [scopeFaults, scopeFaults] at hbody
    rw [relined, faults, faults, List.map_append, c.faults_relined, hbody]
  | ret e l =>
    intro v
    have hdepth : (v.relined f).functionDepth = v.functionDepth := rfl
    rw [relined, faults, faults, List.map_append, Expr.optionFaults_relined, hdepth]
    split <;> rfl

theorem record_relined (s : Stmt) (v : View) :
    (s.relined f).record (v.relined f) = (s.record v).map (CheckedFunction.relined f) := by
  cases s with
  | function x t ps body k l =>
    have hfaults := (Stmt.function x t ps body k l).faults_relined f v
    rw [relined] at hfaults
    rw [relined, record, record, hfaults, List.length_map, List.length_map]
    rfl
  | _ => rfl

theorem listRecords_relined (ss : List Stmt) (v : View) :
    listRecords (v.relined f) (listRelined f ss) =
      (listRecords v ss).map (Option.map (CheckedFunction.relined f)) := by
  induction ss generalizing v with
  | nil => rfl
  | cons s ss ih =>
    rw [listRelined, listRecords, listRecords, List.map_cons, record_relined, View.after_relined, ih]

end Stmt

theorem Program.view_relined (u : Program) (limit : Nat) :
    Program.view (u.relined f) limit = (u.view limit).relined f := by
  have hregistered := registered_relined f {} u
  simp only [view, View.relined, Program.relined, ← hregistered]
  rfl

/-- Checking a program on other lines finds the same faults and functions on these lines. -/
theorem Program.check_relined (u : Program) (limit : Nat) :
    Program.check (u.relined f) limit = (u.check limit).relined f := by
  have hfaults := Stmt.listFaults_relined f (fun s (_ : s ∈ u) => s.faults_relined f) (u.view limit)
  have hrecords := Stmt.listRecords_relined f u (u.view limit)
  have hduplicates := duplicateFunctions_relined f {} u
  rw [check_eq, check_eq, view_relined, CheckReport.relined]
  congr 1
  · rw [Program.relined, hrecords, List.filterMap_map, List.map_filterMap]
    rfl
  · rw [Program.relined, hfaults, List.map_append, ← hduplicates]
    rfl

end TreeWalk
