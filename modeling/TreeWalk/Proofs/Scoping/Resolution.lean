import TreeWalk.Proofs.Scoping.Effect
import TreeWalk.Proofs.Scoping.Places

/-! Names are resolved by lexical scoping. The scopes that the declaration check opens and closes hold, at
every place of a program, the variables and the functions that can be seen from there. So the faults about
names are those of lexical scoping: one for each use of a name that its place does not see, on its line
and in the order of the sites. -/

namespace TreeWalk

namespace Scopes

variable {α : Type}

/-! ### Looking up a name -/

theorem lookup_eq (s : Scopes α) (x : String) :
    s.lookup x = (s.innermost.lookup x).or (s.enclosing.findSome? (·.lookup x)) := by
  cases h : s.innermost.lookup x <;> simp [lookup, toList, h]

theorem lookup_push (s : Scopes α) (x : String) : s.push.lookup x = s.lookup x := rfl

/-- A name keeps its first binding in the innermost scope. -/
theorem innermost_declare (s : Scopes α) (x y : String) (a : α) :
    (s.declare x a).2.innermost.lookup y =
      (s.innermost.lookup y).or (if x = y then some a else none) := by
  unfold declare
  by_cases hxy : x = y
  · subst hxy
    cases h : s.innermost.lookup x <;> simp [h]
  · have hne : (y == x) = false := beq_false_of_ne (Ne.symm hxy)
    cases h : s.innermost.lookup x <;> simp [List.lookup_cons, hxy, hne]

theorem lookup_declare (s : Scopes α) (x y : String) (a : α) :
    (s.declare x a).2.lookup y = ((s.innermost.lookup y).or (if x = y then some a else none)).or
      (s.enclosing.findSome? (·.lookup y)) := by
  rw [lookup_eq, innermost_declare, enclosing_declare]

theorem contains_declare (s : Scopes α) (x y : String) (a : α) :
    (s.declare x a).2.contains y ↔ x = y ∨ s.contains y := by
  rw [contains, contains, lookup_declare, lookup_eq]
  by_cases hxy : x = y <;> simp [hxy]

end Scopes

namespace Scoping

/-- The functions of a list are bound to their first declarations in it. -/
theorem innermost_registered (functions : Scopes Signature) (statements : List Stmt) (f : String) :
    (registered functions statements).innermost.lookup f =
      (functions.innermost.lookup f).or (statements.findSome? (Stmt.signature? f)) := by
  induction statements generalizing functions with
  | nil => simp [registered]
  | cons s rest ih =>
    cases s with
    | function name t ps body k l =>
      rw [registered, ih, Scopes.innermost_declare, Option.or_assoc]
      by_cases h : name = f <;> simp [Stmt.signature?, h]
    | _ => simp [registered, ih, List.findSome?_cons, Stmt.signature?]

theorem lookup_registered_push (functions : Scopes Signature) (statements : List Stmt) (f : String) :
    (registered functions.push statements).lookup f =
      (statements.findSome? (Stmt.signature? f)).or (functions.lookup f) := by
  rw [Scopes.lookup_eq, innermost_registered, enclosing_registered]
  rfl

theorem contains_withParameters (bound : Scopes Ty) (parameters : List Parameter) (x : String) :
    (withParameters bound parameters).contains x ↔
      (∃ q ∈ parameters, q.name = x) ∨ bound.contains x := by
  induction parameters generalizing bound with
  | nil => simp [withParameters]
  | cons q rest ih =>
    rw [withParameters, ih, Scopes.contains_declare]
    simp only [List.mem_cons, exists_eq_or_imp]
    rw [or_assoc, or_left_comm]

/-! ### The view at a place -/

/-- The view knows the variables and the functions that can be seen from the place. -/
structure View.Matches (v : View) (p : Place) : Prop where
  bound : ∀ x, v.bound.contains x ↔ p.Sees x
  functions : ∀ f, v.functions.lookup f = p.function? f

theorem Place.sees_cons (layer : Layer) (p : Place) (x : String) :
    Place.Sees (layer :: p) x ↔ layer.Binds x ∨ p.Sees x := by
  simp [Place.Sees]

theorem Place.function?_cons (layer : Layer) (p : Place) (f : String) :
    Place.function? (layer :: p) f = (layer.function? f).or (p.function? f) := by
  cases h : layer.function? f <;> simp [Place.function?, h]

/-- The statement at the index adds what it declares, and nothing else. -/
theorem Layer.binds_succ {statements : List Stmt} {i : Nat} {s : Stmt} (hs : statements[i]? = some s)
    (x : String) : (Layer.list statements (i + 1)).Binds x ↔
      s.declares x ∨ (Layer.list statements i).Binds x := by
  simp [Layer.Binds, List.take_add_one, hs, or_and_right, exists_or, or_comm]

theorem contains_boundAfter (bound : Scopes Ty) (s : Stmt) (x : String) :
    (boundAfter bound s).contains x ↔ s.declares x ∨ bound.contains x := by
  cases s with
  | declare y t e l => simp [boundAfter, Scopes.contains_declare, Stmt.declares]
  | _ => simp [boundAfter, Stmt.declares]

namespace View.Matches

variable {v : View} {p : Place}

/-- At the start of a list nothing in it is declared and all its functions are known. -/
theorem enter (h : v.Matches p) (statements : List Stmt) :
    (v.enter statements).Matches (.list statements 0 :: p) where
  bound x := by
    have hpush : v.bound.push.contains x ↔ p.Sees x := h.bound x
    simpa [View.enter, Place.sees_cons, Layer.Binds] using hpush
  functions f := by
    rw [View.enter, lookup_registered_push, h.functions, Place.function?_cons, Layer.function?]

theorem after {statements : List Stmt} {i : Nat} {s : Stmt} (h : v.Matches (.list statements i :: p))
    (hs : statements[i]? = some s) : (v.after s).Matches (.list statements (i + 1) :: p) where
  bound x := by
    rw [View.after, contains_boundAfter, h.bound, Place.sees_cons, Place.sees_cons,
      Layer.binds_succ hs, or_assoc]
  functions f := h.functions f

theorem enterFunction (h : v.Matches p) (parameters : List Parameter) (body : List Stmt) :
    (v.enterFunction parameters).Matches (.function parameters body :: p) where
  bound x := by
    have hpush : v.bound.push.contains x ↔ p.Sees x := h.bound x
    rw [View.enterFunction, contains_withParameters, hpush, Place.sees_cons, Layer.Binds]
  functions f := by
    rw [View.enterFunction, Scopes.lookup_push, h.functions, Place.function?_cons, Layer.function?,
      Option.none_or]

theorem start (u : Program) (limit : Nat) : (u.view limit).Matches [.list u 0] where
  bound x := by simp [Program.view, Place.Sees, Layer.Binds, Scopes.contains, Scopes.lookup, Scopes.toList]
  functions f := by
    rw [Program.view, Scopes.lookup_eq, innermost_registered, enclosing_registered,
      Place.function?_cons, Layer.function?]
    rfl

end View.Matches

end Scoping

/-! ### Faults about names -/

namespace Fault

def isVariable : Fault → Bool
  | .undefinedVariable _ _ | .undeclaredAssignment _ _ => true
  | _ => false

def isCall : Fault → Bool
  | .unknownFunction _ _ | .wrongArity _ _ _ _ _ => true
  | _ => false

/-- Whether a fault is about a name that an expression uses. -/
def isUse (f : Fault) : Bool := f.isVariable || f.isCall

end Fault

namespace Scoping

/-- The fault that lexical scoping finds in the name that an expression uses. -/
def Site.fault? : Site → Option Fault
  | ⟨p, .access x l⟩ => if p.Sees x then none else some (.undefinedVariable x l)
  | ⟨p, .assign x _ l⟩ => if p.Sees x then none else some (.undeclaredAssignment x l)
  | ⟨p, .call f es l⟩ =>
    match p.function? f with
    | none => some (.unknownFunction f l)
    | some g => if g.arity = es.length then none else some (.wrongArity f g.arity es.length l g.line)
  | _ => none

theorem Site.report_eq (site : Site) : site.report = site.fault?.map Fault.diagnostic := by
  obtain ⟨p, e⟩ := site
  cases e with
  | access x l | assign x e l =>
    by_cases h : p.Sees x
    · simp only [report, fault?, if_pos h, Option.map_none]
    · simp only [report, fault?, if_neg h, Option.map_some]
      rfl
  | call f es l =>
    cases h : p.function? f with
    | none =>
      simp only [report, fault?, h, Option.map_some]
      rfl
    | some g =>
      by_cases hg : g.arity = es.length
      · simp only [report, fault?, h, if_pos hg, Option.map_none]
      · simp only [report, fault?, h, if_neg hg, Option.map_some]
        rfl
  | _ => rfl

/-- A fault about a name is of the kind of the expression that uses the name. -/
theorem Site.kind_of_fault? {site : Site} {f : Fault} (h : site.fault? = some f) :
    f.isVariable = site.isVariable ∧ f.isCall = site.isCall ∧ f.isUse := by
  obtain ⟨p, e⟩ := site
  cases e with
  | access x l | assign x e l =>
    by_cases hx : p.Sees x
    · simp [fault?, hx] at h
    · simp only [fault?, if_neg hx, Option.some.injEq] at h
      subst h
      exact ⟨rfl, rfl, rfl⟩
  | call g es l =>
    cases hg : p.function? g with
    | none =>
      simp only [fault?, hg, Option.some.injEq] at h
      subst h
      exact ⟨rfl, rfl, rfl⟩
    | some sig =>
      by_cases hn : sig.arity = es.length
      · simp [fault?, hg, hn] at h
      · simp only [fault?, hg, if_neg hn, Option.some.injEq] at h
        subst h
        exact ⟨rfl, rfl, rfl⟩
  | _ => simp [fault?] at h

end Scoping

open Scoping

namespace Expr

variable {v : View} {p : Place}

theorem listFaults_eq {es : List Expr}
    (h : ∀ e ∈ es, e.faults v = e.postorder.filterMap fun e => Site.fault? ⟨p, e⟩) :
    Expr.listFaults v es = (Expr.postorderList es).filterMap fun e => Site.fault? ⟨p, e⟩ := by
  induction es with
  | nil => rfl
  | cons e rest ih =>
    rw [listFaults, postorderList, List.filterMap_append, h e List.mem_cons_self,
      ih fun e he => h e (List.mem_cons_of_mem _ he)]

/-- The faults in an expression are those of its sites, which all are at its place. -/
theorem faults_eq (h : v.Matches p) (e : Expr) :
    e.faults v = e.postorder.filterMap fun e => Site.fault? ⟨p, e⟩ := by
  induction e using Expr.induct with
  | literal c l => rfl
  | grouping e l ih | unary op e l ih => simp [faults, postorder, ih, Site.fault?]
  | binary a op b l iha ihb | logical a op b l iha ihb =>
    simp [faults, postorder, iha, ihb, Site.fault?]
  | access x l => by_cases hx : p.Sees x <;> simp [faults, postorder, Site.fault?, h.bound, hx]
  | assign x e l ih =>
    by_cases hx : p.Sees x <;> simp [faults, postorder, ih, Site.fault?, h.bound, hx]
  | call f es l ih =>
    rw [faults, postorder, List.filterMap_append, listFaults_eq ih, View.callFaults, h.functions]
    cases hf : p.function? f with
    | none => simp [Site.fault?, hf]
    | some g => by_cases hg : g.arity = es.length <;> simp [Site.fault?, hf, hg]

end Expr

namespace Scoping

/-- The faults that lexical scoping finds in an expression and those in it. -/
def Site.faults (r : Site) : List Fault := r.inner.filterMap Site.fault?

variable {v : View} {p : Place}

theorem filter_faults_expr (h : v.Matches p) (e : Expr) :
    (e.faults v).filter Fault.isUse = Site.faults ⟨p, e⟩ := by
  have he : e.faults v = Site.faults ⟨p, e⟩ := by
    rw [Site.faults, Site.inner, List.filterMap_map]
    exact Expr.faults_eq h e
  rw [he, List.filter_eq_self]
  intro f hf
  obtain ⟨site, -, hsite⟩ := List.mem_filterMap.1 hf
  exact (Site.kind_of_fault? hsite).2.2

theorem filter_faults_option (h : v.Matches p) (e : Option Expr) :
    (Expr.optionFaults v e).filter Fault.isUse = (e.toList.map (Site.mk p)).flatMap Site.faults := by
  cases e with
  | none => rfl
  | some e => simpa [Expr.optionFaults] using filter_faults_expr h e

theorem filter_duplicateFunctions (functions : Scopes Signature) (statements : List Stmt) :
    (duplicateFunctions functions statements).filter Fault.isUse = [] := by
  induction statements generalizing functions with
  | nil => rfl
  | cons s rest ih =>
    cases s with
    | function name t ps body k l =>
      cases functions.innermost.lookup name <;>
        simp [duplicateFunctions, ih, Fault.isUse, Fault.isVariable, Fault.isCall]
    | _ => exact ih functions

theorem filter_duplicateParameters (function : String) (bound : Scopes Ty) (ps : List Parameter) :
    (duplicateParameters function bound ps).filter Fault.isUse = [] := by
  induction ps generalizing bound with
  | nil => rfl
  | cons q rest ih =>
    cases bound.innermost.lookup q.name <;>
      simp [duplicateParameters, ih, Fault.isUse, Fault.isVariable, Fault.isCall]

theorem filter_headFaults (v : View) (name : String) (ps : List Parameter) (l : Line) :
    (v.headFaults name ps l).filter Fault.isUse = [] := by
  rw [View.headFaults, List.filter_append, filter_duplicateParameters]
  split <;> rfl

/-- The faults about names in the statement are those of lexical scoping, wherever it stands. -/
def Lexical (s : Stmt) : Prop :=
  ∀ (v : View) (p : Place), v.Matches p →
    (s.faults v).filter Fault.isUse = (s.roots p).flatMap Site.faults

theorem filter_listFaults {ss : List Stmt} (hss : ∀ s ∈ ss, Lexical s) {statements : List Stmt} {i : Nat}
    (h : v.Matches (.list statements i :: p)) (hi : statements.drop i = ss) :
    (Stmt.listFaults v ss).filter Fault.isUse =
      (Stmt.listRoots p statements i ss).flatMap Site.faults := by
  induction ss generalizing v i with
  | nil => rfl
  | cons s rest ih =>
    obtain ⟨hat, hrest⟩ := getElem?_and_drop_of_drop_eq_cons hi
    rw [Stmt.listFaults, Stmt.listRoots, List.filter_append, List.flatMap_append,
      hss s List.mem_cons_self v _ h,
      ih (fun t ht => hss t (List.mem_cons_of_mem _ ht)) (h.after hat) hrest]

theorem filter_scopeFaults {ss : List Stmt} (hss : ∀ s ∈ ss, Lexical s) (h : v.Matches p) :
    (scopeFaults v ss).filter Fault.isUse = (scopeRoots p ss).flatMap Site.faults := by
  rw [scopeFaults, List.filter_append, filter_duplicateFunctions, List.nil_append]
  exact filter_listFaults hss (h.enter ss) rfl

theorem lexical (s : Stmt) : Lexical s := by
  induction s using Stmt.scopeInduct with
  | function x t ps body k l ih =>
    intro v p h
    rw [Stmt.faults, Stmt.roots, List.filter_append, filter_headFaults, List.nil_append]
    exact filter_scopeFaults ih (h.enterFunction ps body)
  | block ss l ih => exact fun v p h => filter_scopeFaults ih h
  | expression e l | print e l =>
    intro v p h
    rw [Stmt.roots, List.flatMap_singleton]
    exact filter_faults_expr h e
  | branch c s o l ihs iho =>
    intro v p h
    rw [faults_branch, roots_branch, List.filter_append, List.filter_append, filter_faults_expr h,
      filter_scopeFaults ihs h, List.flatMap_cons, List.flatMap_append, List.append_assoc]
    cases o with
    | none => rfl
    | some t => simp [filter_scopeFaults (iho t rfl) h]
  | declare x t e l => exact fun v p h => filter_faults_option h e
  | loop c body k l ih =>
    intro v p h
    rw [Stmt.faults, Stmt.roots, List.filter_append, filter_faults_expr h, List.flatMap_cons]
    exact congrArg (Site.faults ⟨p, c⟩ ++ ·) (filter_scopeFaults ih h)
  | ret e l =>
    -- A `return` outside of a function is a fault, but not one about a name.
    intro v p h
    rw [Stmt.faults, Stmt.roots, List.filter_append, filter_faults_option h]
    split <;> rfl

end Scoping

/-- The faults of a check about names are those that lexical scoping finds, in the order of the sites. -/
theorem Program.filter_faults_check (u : Program) (limit : Nat) :
    (u.check limit).faults.filter Fault.isUse = u.sites.filterMap Site.fault? := by
  rw [Program.check_eq, List.filter_append, filter_duplicateFunctions, List.nil_append,
    Program.sites, List.filterMap_flatMap]
  exact filter_listFaults (fun s _ => lexical s) (View.Matches.start u limit) rfl

/-- Faults of a kind, and the sites that can have such faults, agree in what is reported. -/
theorem Program.diagnostics_of_kind (u : Program) (limit : Nat) (faultKind : Fault → Bool)
    (siteKind : Site → Bool) (huse : ∀ f, faultKind f → f.isUse)
    (hkind : ∀ site f, site.fault? = some f → faultKind f = siteKind site) :
    ((u.check limit).faults.filter faultKind).map Fault.diagnostic =
      (u.sites.filter siteKind).filterMap Site.report := by
  have hfilter : (u.check limit).faults.filter faultKind =
      ((u.check limit).faults.filter Fault.isUse).filter faultKind := by
    rw [List.filter_filter]
    refine List.filter_congr fun f _ => ?_
    cases h : faultKind f with
    | false => rfl
    | true => exact (huse f h).symm
  have hsites : (u.sites.filterMap Site.fault?).filter faultKind =
      (u.sites.filter siteKind).filterMap Site.fault? := by
    induction u.sites with
    | nil => rfl
    | cons site rest ih =>
      cases hf : site.fault? with
      | none => cases h : siteKind site <;> simp [hf, h, ih]
      | some f => cases h : siteKind site <;> simp [hf, h, ih, hkind site f hf]
  have hreport : Site.report = fun site => site.fault?.map Fault.diagnostic :=
    funext Site.report_eq
  rw [hfilter, Program.filter_faults_check, hsites, hreport, List.map_filterMap]

/-- Variables are resolved by lexical scoping: what is reported about reads and assignments is one
diagnostic for each of them whose place does not see the variable, on its line. -/
theorem Program.variable_diagnostics (u : Program) (limit : Nat) :
    IsSurvey u u.sites ∧
      ((u.check limit).faults.filter Fault.isVariable).map Fault.diagnostic =
        (u.sites.filter Site.isVariable).filterMap Site.report := by
  have hvariables := u.diagnostics_of_kind limit Fault.isVariable Site.isVariable
    (fun f hf => by simp [Fault.isUse, hf]) fun site f h => (Site.kind_of_fault? h).1
  exact ⟨u.isSurvey_sites, hvariables⟩

/-- Calls are resolved by hoisted lexical lookup: what is reported about calls is one diagnostic for each
of them whose place sees no function of the name or whose first such function, in the innermost list with
one, takes another number of arguments. All uses of names are reported in the order of the sites, in
which the arguments of a call come directly before it. -/
theorem Program.call_diagnostics (u : Program) (limit : Nat) :
    IsSurvey u u.sites ∧
      ((u.check limit).faults.filter Fault.isCall).map Fault.diagnostic =
        (u.sites.filter Site.isCall).filterMap Site.report ∧
      ((u.check limit).faults.filter Fault.isUse).map Fault.diagnostic =
        u.sites.filterMap Site.report ∧
      ArgumentsFirst u.sites := by
  have hcalls := u.diagnostics_of_kind limit Fault.isCall Site.isCall
    (fun f hf => by simp [Fault.isUse, hf]) fun site f h => (Site.kind_of_fault? h).2.1
  have huses := u.diagnostics_of_kind limit Fault.isUse (fun _ => true)
    (fun f hf => hf) fun site f h => (Site.kind_of_fault? h).2.2
  rw [List.filter_true] at huses
  exact ⟨u.isSurvey_sites, hcalls, huses, u.argumentsFirst_sites⟩

end TreeWalk
