import TreeWalk.Proofs.Scoping.Comparison
import TreeWalk.Proofs.Scoping.Segments
import TreeWalk.Proofs.Traversal.Journey

/-! The limit for the number of parameters. Every function with more parameters than the limit has one fault
about it, wherever the function stands, and is checked like any other function beside that. So two checks
with different limits differ in nothing but these faults, and in how many of them each record counts. -/

namespace TreeWalk

open Scoping

/-- Whether a statement is a function with more parameters than `limit`. -/
def Stmt.exceeds (limit : Nat) : Stmt → Bool
  | .function _ _ ps _ _ _ => limit < ps.length
  | _ => false

namespace Scoping

theorem countP_limit_of_uses {fs : List Fault} (h : ruleFaults fs = []) : fs.countP Fault.isLimit = 0 := by
  rw [ruleFaults, List.filter_eq_nil_iff] at h
  rw [List.countP_eq_zero]
  intro f hf hlimit
  cases f with
  | tooManyParameters g n m l => exact h _ hf rfl
  | _ => simp [Fault.isLimit] at hlimit

@[simp] theorem countP_limit_expr (v : View) (e : Expr) : (e.faults v).countP Fault.isLimit = 0 :=
  countP_limit_of_uses (ruleFaults_expr v e)

@[simp] theorem countP_limit_option (v : View) (e : Option Expr) :
    (Expr.optionFaults v e).countP Fault.isLimit = 0 :=
  countP_limit_of_uses (ruleFaults_option v e)

@[simp] theorem countP_limit_duplicateFunctions (functions : Scopes Signature) (ss : List Stmt) :
    (duplicateFunctions functions ss).countP Fault.isLimit = 0 := by
  induction ss generalizing functions with
  | nil => rfl
  | cons s rest ih =>
    cases s with
    | function name t ps body k l =>
      rw [duplicateFunctions, List.countP_append, ih]
      cases functions.innermost.lookup name <;> rfl
    | _ => exact ih functions

theorem countP_limit_duplicateParameters (function : String) (bound : Scopes Ty) (ps : List Parameter) :
    (duplicateParameters function bound ps).countP Fault.isLimit = 0 := by
  induction ps generalizing bound with
  | nil => rfl
  | cons q rest ih =>
    rw [duplicateParameters, List.countP_append, ih]
    cases bound.innermost.lookup q.name <;> rfl

theorem countP_limit_head (v : View) (name : String) (ps : List Parameter) (l : Line) :
    (v.headFaults name ps l).countP Fault.isLimit = if v.limit < ps.length then 1 else 0 := by
  rw [View.headFaults, List.countP_append, countP_limit_duplicateParameters, Nat.add_zero]
  split <;> rfl

/-- There is one fault about the limit for each function in the statement with too many parameters. -/
def Limited (s : Stmt) : Prop :=
  ∀ v : View, (s.faults v).countP Fault.isLimit = s.preorder.countP (Stmt.exceeds v.limit)

theorem countP_limit_list {ss : List Stmt} (hss : ∀ s ∈ ss, Limited s) (v : View) :
    (Stmt.listFaults v ss).countP Fault.isLimit =
      (Stmt.stmtsUnder ss).countP (Stmt.exceeds v.limit) := by
  induction ss generalizing v with
  | nil => rfl
  | cons s rest ih =>
    have hrest := ih (fun t ht => hss t (List.mem_cons_of_mem _ ht)) (v.after s)
    rw [Stmt.listFaults, Stmt.stmtsUnder, List.countP_append, List.countP_append,
      hss s List.mem_cons_self, hrest]
    rfl

theorem countP_limit_scope {ss : List Stmt} (hss : ∀ s ∈ ss, Limited s) (v : View) :
    (scopeFaults v ss).countP Fault.isLimit = (Stmt.stmtsUnder ss).countP (Stmt.exceeds v.limit) := by
  rw [scopeFaults, List.countP_append, countP_limit_duplicateFunctions, Nat.zero_add,
    countP_limit_list hss]
  rfl

/-- A block that is a branch is no function. -/
theorem countP_exceeds_branch (s : Stmt) (limit : Nat) :
    (Stmt.stmtsUnder s.branchStatements).countP (Stmt.exceeds limit) =
      s.preorder.countP (Stmt.exceeds limit) := by
  cases s with
  | block ss k => simp [Stmt.branchStatements, Stmt.preorder, Stmt.exceeds]
  | _ => simp [Stmt.branchStatements, Stmt.stmtsUnder]

theorem limited (s : Stmt) : Limited s := by
  induction s using Stmt.scopeInduct with
  | function x t ps body k l ih =>
    intro v
    have hfaults : (Stmt.function x t ps body k l).faults v =
        v.headFaults x ps l ++ scopeFaults (v.enterFunction ps) body := rfl
    rw [hfaults, List.countP_append, countP_limit_head, countP_limit_scope ih, Stmt.preorder,
      List.countP_cons, Nat.add_comm]
    simp [Stmt.exceeds, View.enterFunction]
  | block ss l ih =>
    intro v
    rw [Stmt.preorder, List.countP_cons]
    exact countP_limit_scope ih v
  | expression e l | print e l | declare x t e l =>
    intro v
    simp [Stmt.faults, Stmt.preorder, Stmt.exceeds]
  | branch c s o l ihs iho =>
    intro v
    rw [faults_branch, Stmt.preorder, List.countP_cons]
    simp only [List.countP_append, countP_limit_expr, countP_limit_scope ihs, countP_exceeds_branch]
    cases o with
    | none => simp [Stmt.optionPreorder, Stmt.exceeds]
    | some t =>
      simp [Stmt.optionPreorder, Stmt.exceeds, countP_limit_scope (iho t rfl), countP_exceeds_branch]
  | loop c body k l ih =>
    intro v
    have hfaults : (Stmt.loop c body k l).faults v = c.faults v ++ scopeFaults v body := rfl
    rw [hfaults, List.countP_append, countP_limit_expr, countP_limit_scope ih, Stmt.preorder,
      List.countP_cons]
    simp [Stmt.exceeds]
  | ret e l =>
    intro v
    rw [Stmt.faults, List.countP_append, countP_limit_option]
    split <;> simp [Fault.isLimit, Stmt.preorder, Stmt.exceeds]

variable {v w : View}

/-- The faults in a statement are those found with a limit that nothing in it exceeds, and one for each
function in it that exceeds the limit. -/
theorem length_faults_limits (h : v.Alike (fun f => !f.isLimit) w) {s : Stmt}
    (hs : ∀ t ∈ s.preorder, ¬ t.exceeds w.limit) :
    (s.faults v).length = (s.faults w).length + s.preorder.countP (Stmt.exceeds v.limit) := by
  have hkept := congrArg List.length (View.Alike.invariant s v w h)
  have hnone : (s.faults w).countP Fault.isLimit = 0 := (limited s w).trans (List.countP_eq_zero.2 hs)
  have hv := List.length_eq_length_filter_add (l := s.faults v) Fault.isLimit
  have hw := List.length_eq_length_filter_add (l := s.faults w) Fault.isLimit
  rw [← List.countP_eq_length_filter] at hv hw
  rw [limited s v] at hv
  omega

end Scoping

/-- The record of a function in which `n` more faults were found. -/
def CheckedFunction.addErrors (r : CheckedFunction) (n : Nat) : CheckedFunction :=
  { r with errors := r.errors + n }

namespace Stmt

theorem length_filterMap_listRecords (v : View) (ss : List Stmt) :
    ((listRecords v ss).filterMap id).length = (ss.filter isFunction).length := by
  induction ss generalizing v with
  | nil => rfl
  | cons s ss ih =>
    rw [listRecords, List.filterMap_cons, List.filter_cons]
    cases s with
    | function x t ps body k l => exact congrArg (· + 1) (ih _)
    | _ => exact ih _

theorem listRecords_limits {v w : View} (h : v.Alike (fun f => !f.isLimit) w) {ss : List Stmt}
    (hss : ∀ t ∈ stmtsUnder ss, ¬ t.exceeds w.limit) :
    (listRecords v ss).filterMap id =
      List.zipWith (fun r s => r.addErrors (s.preorder.countP (exceeds v.limit)))
        ((listRecords w ss).filterMap id) (ss.filter isFunction) := by
  induction ss generalizing v w with
  | nil => rfl
  | cons s ss ih =>
    rw [stmtsUnder, List.forall_mem_append] at hss
    have hrest := ih (h.after s) hss.2
    cases s with
    | function x t ps body k l =>
      have hlength := length_faults_limits h hss.1
      rw [listRecords, listRecords, record_eq, record_eq, hlength]
      exact congrArg (List.cons _) hrest
    | _ => exact hrest

end Stmt

theorem Program.alike_limits (u : Program) (m n : Nat) :
    (u.view m).Alike (fun f => !f.isLimit) (u.view n) where
  functions _ := rfl
  bound := rfl
  functionDepth := rfl
  limit := .inr fun f hf => by simp [hf]

theorem Program.filter_faults_limits (u : Program) (m n : Nat) :
    (u.check m).faults.filter (fun f => !f.isLimit) = (u.check n).faults.filter (fun f => !f.isLimit) := by
  rw [check_eq, check_eq, List.filter_append, List.filter_append,
    View.Alike.filter_list (fun s _ => View.Alike.invariant s) (u.alike_limits m n)]

theorem Program.countP_faults_limit (u : Program) (limit : Nat) :
    (u.check limit).faults.countP Fault.isLimit = countStmts (Stmt.exceeds limit) u := by
  rw [check_eq, List.countP_append, countP_limit_duplicateFunctions, Nat.zero_add, countStmts_eq,
    countP_limit_list fun s _ => limited s]
  rfl

/-- The limit only adds its own faults. Where no function has more than `n` parameters, a check with the
limit `n` finds what a check with the limit `m` finds beside the faults about the limit, in the same order.
Of these there is one for each function, however deep, with more than `m` parameters. The records are the
same but for the number of faults, to which each such function in the function or itself adds one. -/
theorem Program.limit_adds_own_faults (u : Program) (m n : Nat)
    (hn : ∀ s ∈ Stmt.stmtsUnder u, ¬ s.exceeds n) :
    (u.check n).faults = (u.check m).faults.filter (fun f => !f.isLimit) ∧
    (u.check n).diagnostics.Sublist (u.check m).diagnostics ∧
    (u.check m).diagnostics.length = (u.check n).diagnostics.length + countStmts (Stmt.exceeds m) u ∧
    (u.check n).functions.length = (u.filter Stmt.isFunction).length ∧
    (u.check m).functions =
      List.zipWith (fun r s => r.addErrors (countStmts (Stmt.exceeds m) [s]))
        (u.check n).functions (u.filter Stmt.isFunction) := by
  have hnone : (u.check n).faults.countP Fault.isLimit = 0 := by
    rw [countP_faults_limit, countStmts_eq]
    exact List.countP_eq_zero.2 hn
  have hkept : (u.check n).faults = (u.check m).faults.filter (fun f => !f.isLimit) := by
    rw [filter_faults_limits u m n, eq_comm, List.filter_eq_self]
    intro f hf
    simpa using List.countP_eq_zero.1 hnone f hf
  refine ⟨hkept, ?_, ?_, ?_, ?_⟩
  · rw [CheckReport.diagnostics, CheckReport.diagnostics, hkept]
    exact List.filter_sublist.map Fault.diagnostic
  · have hsplit := List.length_eq_length_filter_add (l := (u.check m).faults) Fault.isLimit
    rw [← List.countP_eq_length_filter, countP_faults_limit, ← hkept] at hsplit
    rw [CheckReport.diagnostics, CheckReport.diagnostics, List.length_map, List.length_map, hsplit,
      Nat.add_comm]
  · rw [check_eq]
    exact Stmt.length_filterMap_listRecords (u.view n) u
  · have hcount (s : Stmt) : countStmts (Stmt.exceeds m) [s] = s.preorder.countP (Stmt.exceeds m) := by
      rw [countStmts_eq, Stmt.stmtsUnder, Stmt.stmtsUnder, List.append_nil]
    have hrecords := Stmt.listRecords_limits (u.alike_limits m n) hn
    simp only [check_eq, hcount]
    exact hrecords

theorem Program.limit_adds_own_faults_nested :
    let inner : Stmt := .function "g" .void [⟨"a", .integer, 2⟩, ⟨"a", .integer, 2⟩] [] 2 2
    let u : Program := [.function "f" .integer [⟨"b", .integer, 1⟩] [inner, .print (.access "c" 3) 3] 1 1,
      .block [inner] 4]
    (∀ s ∈ Stmt.stmtsUnder u, ¬ s.exceeds 2) ∧
    (u.check 2).faults = (u.check 0).faults.filter (fun f => !f.isLimit) ∧
    (u.check 2).diagnostics.Sublist (u.check 0).diagnostics ∧
    (u.check 0).diagnostics.length = (u.check 2).diagnostics.length + countStmts (Stmt.exceeds 0) u ∧
    (u.check 2).functions.length = (u.filter Stmt.isFunction).length ∧
    (u.check 0).functions =
      List.zipWith (fun r s => r.addErrors (countStmts (Stmt.exceeds 0) [s]))
        (u.check 2).functions (u.filter Stmt.isFunction) := by
  intro inner u
  have hlarge : ∀ s ∈ Stmt.stmtsUnder u, ¬ s.exceeds 2 := by decide
  exact ⟨hlarge, u.limit_adds_own_faults 0 2 hlarge⟩

end TreeWalk
