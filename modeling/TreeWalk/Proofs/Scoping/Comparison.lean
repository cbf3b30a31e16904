import TreeWalk.Proofs.Scoping.Resolution

/-! Two checks compared. What is found in a statement depends on what the names resolve to from there, not
on how the scopes came about. Views that resolve all names alike give the same faults, up to those about
the number of parameters where the limits are different. -/

namespace TreeWalk

/-- Whether a fault is about the number of parameters of a function. -/
def Fault.isLimit : Fault → Bool
  | .tooManyParameters _ _ _ _ => true
  | _ => false

open Scoping

namespace Scoping

/-- From the two views all names resolve alike. The limits are the same too, unless no fault about a limit
is kept. -/
structure View.Alike (kept : Fault → Bool) (v w : View) : Prop where
  functions : ∀ f, v.functions.lookup f = w.functions.lookup f
  bound : v.bound = w.bound
  functionDepth : v.functionDepth = w.functionDepth
  limit : v.limit = w.limit ∨ ∀ f : Fault, f.isLimit → kept f = false

/-- The duplicates in a list are found in the innermost scope. -/
theorem duplicateFunctions_congr {fs gs : Scopes Signature}
    (h : ∀ x, fs.innermost.lookup x = gs.innermost.lookup x) (ss : List Stmt) :
    duplicateFunctions fs ss = duplicateFunctions gs ss := by
  induction ss generalizing fs gs with
  | nil => rfl
  | cons s rest ih =>
    cases s with
    | function name t ps body k l =>
      rw [duplicateFunctions, duplicateFunctions, h name]
      congr 1
      apply ih
      intro x
      rw [Scopes.innermost_declare, Scopes.innermost_declare, h x]
    | _ => exact ih h

namespace View.Alike

variable {kept : Fault → Bool} {v w : View}

theorem enter (h : v.Alike kept w) (ss : List Stmt) : (v.enter ss).Alike kept (w.enter ss) where
  functions f := by rw [View.enter, View.enter, lookup_registered_push, lookup_registered_push, h.functions]
  bound := congrArg Scopes.push h.bound
  functionDepth := h.functionDepth
  limit := h.limit

theorem enterFunction (h : v.Alike kept w) (ps : List Parameter) :
    (v.enterFunction ps).Alike kept (w.enterFunction ps) where
  functions f := h.functions f
  bound := by rw [View.enterFunction, View.enterFunction, h.bound]
  functionDepth := congrArg (· + 1) h.functionDepth
  limit := h.limit

theorem after (h : v.Alike kept w) (s : Stmt) : (v.after s).Alike kept (w.after s) where
  functions f := h.functions f
  bound := congrArg (boundAfter · s) h.bound
  functionDepth := h.functionDepth
  limit := h.limit

theorem callFaults_eq (h : v.Alike kept w) (callee : String) (got : Nat) (l : Line) :
    v.callFaults callee got l = w.callFaults callee got l := by
  rw [View.callFaults, View.callFaults, h.functions]

theorem listFaults_eq {es : List Expr} (hes : ∀ e ∈ es, e.faults v = e.faults w) :
    Expr.listFaults v es = Expr.listFaults w es := by
  induction es with
  | nil => rfl
  | cons e rest ih =>
    rw [Expr.listFaults, Expr.listFaults, hes e List.mem_cons_self,
      ih fun e he => hes e (List.mem_cons_of_mem _ he)]

theorem faults_eq (h : v.Alike kept w) (e : Expr) : e.faults v = e.faults w := by
  induction e using Expr.induct with
  | literal c l => rfl
  | grouping e l ih | unary op e l ih => exact ih
  | binary a op b l iha ihb | logical a op b l iha ihb => rw [Expr.faults, Expr.faults, iha, ihb]
  | access x l => rw [Expr.faults, Expr.faults, h.bound]
  | assign x e l ih => rw [Expr.faults, Expr.faults, ih, h.bound]
  | call f es l ih => rw [Expr.faults, Expr.faults, listFaults_eq ih, h.callFaults_eq]

theorem optionFaults_eq (h : v.Alike kept w) (e : Option Expr) :
    Expr.optionFaults v e = Expr.optionFaults w e := by
  cases e with
  | none => rfl
  | some e => exact h.faults_eq e

theorem filter_head (h : v.Alike kept w) (name : String) (ps : List Parameter) (l : Line) :
    (v.headFaults name ps l).filter kept = (w.headFaults name ps l).filter kept := by
  rw [View.headFaults, View.headFaults, List.filter_append, List.filter_append, h.bound]
  congr 1
  rcases h.limit with heq | hdropped
  · rw [heq]
  · -- Whichever limit is exceeded, the fault is dropped.
    have hnone (n : Nat) : (if n < ps.length then [Fault.tooManyParameters name ps.length n l]
        else []).filter kept = [] := by
      split
      · simp [hdropped (.tooManyParameters name ps.length n l) rfl]
      · rfl
    rw [hnone, hnone]

/-- The faults that are kept of those in the statement are the same from views that are alike. -/
def Invariant (kept : Fault → Bool) (s : Stmt) : Prop :=
  ∀ v w : View, v.Alike kept w → (s.faults v).filter kept = (s.faults w).filter kept

theorem filter_list {ss : List Stmt} (hss : ∀ s ∈ ss, Invariant kept s) (h : v.Alike kept w) :
    (Stmt.listFaults v ss).filter kept = (Stmt.listFaults w ss).filter kept := by
  induction ss generalizing v w with
  | nil => rfl
  | cons s rest ih =>
    rw [Stmt.listFaults, Stmt.listFaults, List.filter_append, List.filter_append,
      hss s List.mem_cons_self v w h, ih (fun t ht => hss t (List.mem_cons_of_mem _ ht)) (h.after s)]

theorem filter_scope {ss : List Stmt} (hss : ∀ s ∈ ss, Invariant kept s) (h : v.Alike kept w) :
    (scopeFaults v ss).filter kept = (scopeFaults w ss).filter kept := by
  -- A scope that was just opened is empty, whatever is around it.
  have hempty (x : String) : v.functions.push.innermost.lookup x = w.functions.push.innermost.lookup x :=
    rfl
  rw [scopeFaults, scopeFaults, List.filter_append, List.filter_append,
    duplicateFunctions_congr hempty, filter_list hss (h.enter ss)]

theorem invariant (s : Stmt) : Invariant kept s := by
  induction s using Stmt.scopeInduct with
  | function x t ps body k l ih =>
    intro v w h
    have hfaults (v : View) : (Stmt.function x t ps body k l).faults v =
        v.headFaults x ps l ++ scopeFaults (v.enterFunction ps) body := rfl
    rw [hfaults, hfaults, List.filter_append, List.filter_append, h.filter_head,
      filter_scope ih (h.enterFunction ps)]
  | block ss l ih => exact fun v w h => filter_scope ih h
  | expression e l | print e l => exact fun v w h => congrArg _ (h.faults_eq e)
  | branch c s o l ihs iho =>
    intro v w h
    rw [faults_branch, faults_branch]
    simp only [List.filter_append, h.faults_eq c, filter_scope ihs h]
    cases o with
    | none => rfl
    | some t => simp [filter_scope (iho t rfl) h]
  | declare x t e l => exact fun v w h => congrArg _ (h.optionFaults_eq e)
  | loop c body k l ih =>
    intro v w h
    have hfaults (v : View) : (Stmt.loop c body k l).faults v = c.faults v ++ scopeFaults v body := rfl
    rw [hfaults, hfaults, List.filter_append, List.filter_append, h.faults_eq c, filter_scope ih h]
  | ret e l =>
    intro v w h
    rw [Stmt.faults, Stmt.faults, h.functionDepth, h.optionFaults_eq e]

end View.Alike

end Scoping

end TreeWalk
