import TreeWalk.Proofs.Scoping.Resolution
import TreeWalk.Proofs.Scoping.Statements

/-! The declaration check reports what the rules say and nothing else. The faults that are not about a
name in use are, up to order, those of the rules at the statements of the program: the check finds the
duplicate functions of a list before it visits the list, so a function is reported apart from its
parameters. Together with the reports about names these are all diagnostics. -/

namespace TreeWalk

namespace Scoping

/-! ### Faults at a site -/

/-- The fault of a function that is not the first of its name in its list. -/
def StmtSite.duplicates : StmtSite → List Fault
  | ⟨p, .function f _ _ _ _ l⟩ =>
    (p.earlier.findSome? (Stmt.signature? f)).toList.map (.duplicateFunction f l ·.line)
  | _ => []

/-- The faults of a statement that is visited. -/
def StmtSite.visitFaults (limit : Nat) : StmtSite → List Fault
  | ⟨_, .function f _ ps _ _ l⟩ =>
    (if limit < ps.length then [.tooManyParameters f ps.length limit l] else []) ++
      (repeatedParameters ps).map fun q => .duplicateParameter q.name f q.line
  | ⟨p, .ret _ l⟩ => if p.inFunction then [] else [.returnOutside l]
  | _ => []

def StmtSite.faults (limit : Nat) (r : StmtSite) : List Fault := r.duplicates ++ r.visitFaults limit

theorem StmtSite.duplicates_other {p : Place} {s : Stmt} (h : s.isFunction = false) :
    StmtSite.duplicates ⟨p, s⟩ = [] := by
  cases s with
  | function f t ps body k l => simp [Stmt.isFunction] at h
  | _ => rfl

theorem StmtSite.reports_eq (limit : Nat) (r : StmtSite) :
    r.reports limit = (r.faults limit).map Fault.diagnostic := by
  obtain ⟨p, s⟩ := r
  cases s with
  | function f t ps body k l =>
    have hparameters : (repeatedParameters ps).map (fun q => (⟨"duplicate parameter '" ++ q.name ++
        "' in function '" ++ f ++ "'", q.line, none⟩ : Diagnostic)) =
        ((repeatedParameters ps).map fun q => Fault.duplicateParameter q.name f q.line).map
          Fault.diagnostic := by
      rw [List.map_map]
      rfl
    simp only [reports, faults, duplicates, visitFaults, List.map_append, hparameters,
      ← List.append_assoc]
    congr 2
    · cases p.earlier.findSome? (Stmt.signature? f) <;> rfl
    · split <;> rfl
  | ret e l =>
    simp only [reports, faults, duplicates, visitFaults, List.nil_append]
    split <;> rfl
  | _ => rfl

/-! ### Duplicates -/

theorem duplicateParameters_eq (f : String) {ps qs : List Parameter} {i : Nat} (hi : ps.drop i = qs)
    {bound : Scopes Ty}
    (hbound : ∀ x, (bound.innermost.lookup x).isSome = (ps.take i).any (·.name == x)) :
    duplicateParameters f bound qs =
      ((qs.zipIdx i).filter fun (q, j) => (ps.take j).any (·.name == q.name)).map
        fun (q, _) => .duplicateParameter q.name f q.line := by
  induction qs generalizing i bound with
  | nil => rfl
  | cons q rest ih =>
    obtain ⟨hat, hrest⟩ := getElem?_and_drop_of_drop_eq_cons hi
    have hnext (x : String) : ((bound.declare q.name q.type).2.innermost.lookup x).isSome =
        (ps.take (i + 1)).any (·.name == x) := by
      rw [Scopes.innermost_declare, Option.isSome_or, hbound, List.take_add_one, hat, List.any_append]
      by_cases hx : q.name = x <;> simp [hx]
    rw [duplicateParameters, ih hrest hnext, List.zipIdx_cons, List.filter_cons]
    have hfound := hbound q.name
    cases h : bound.innermost.lookup q.name with
    | none =>
      rw [h, Option.isSome_none] at hfound
      simp [← hfound]
    | some t =>
      rw [h, Option.isSome_some] at hfound
      simp [← hfound]

theorem headFaults_eq (v : View) (p : Place) (f : String) (t : Ty) (ps : List Parameter)
    (body : List Stmt) (k l : Line) :
    v.headFaults f ps l = StmtSite.visitFaults v.limit ⟨p, .function f t ps body k l⟩ := by
  have hempty (x : String) : (v.bound.push.innermost.lookup x).isSome = (ps.take 0).any (·.name == x) := by
    simp [Scopes.push]
  have hstart : ps.drop 0 = ps := List.drop_zero
  rw [View.headFaults, duplicateParameters_eq f hstart hempty]
  simp [StmtSite.visitFaults, repeatedParameters, Function.comp_def]

/-- The functions of the scope are the first of their names among the statements. -/
def Records (functions : Scopes Signature) (statements : List Stmt) : Prop :=
  ∀ f, functions.innermost.lookup f = statements.findSome? (Stmt.signature? f)

theorem records_push (functions : Scopes Signature) : Records functions.push [] := fun _ => rfl

theorem Records.concat {functions : Scopes Signature} {statements : List Stmt}
    (h : Records functions statements) (s : Stmt) :
    Records (registered functions [s]) (statements ++ [s]) := by
  intro f
  rw [innermost_registered, h f, List.findSome?_append]

theorem duplicateFunctions_cons {functions : Scopes Signature} {p : Place}
    (h : Records functions p.earlier) (s : Stmt) (rest : List Stmt) :
    duplicateFunctions functions (s :: rest) =
      StmtSite.duplicates ⟨p, s⟩ ++ duplicateFunctions (registered functions [s]) rest := by
  cases s with
  | function f t ps body k l =>
    rw [duplicateFunctions, StmtSite.duplicates, h f]
    rfl
  | _ => rfl

/-! ### The check against the rules -/

/-- The limit of the view, and whether it is inside a function, are those of the place. -/
structure View.Fits (v : View) (limit : Nat) (p : Place) : Prop where
  limit : v.limit = limit
  depth : v.functionDepth = 0 ↔ p.inFunction = false

namespace View.Fits

variable {v : View} {limit : Nat} {p : Place}

theorem list (h : v.Fits limit p) (statements : List Stmt) (i : Nat) :
    v.Fits limit (.list statements i :: p) where
  limit := h.limit
  depth := h.depth

theorem enter (h : v.Fits limit p) (statements : List Stmt) : (v.enter statements).Fits limit p where
  limit := h.limit
  depth := h.depth

theorem after (h : v.Fits limit p) (s : Stmt) : (v.after s).Fits limit p where
  limit := h.limit
  depth := h.depth

theorem enterFunction (h : v.Fits limit p) (parameters : List Parameter) (body : List Stmt) :
    (v.enterFunction parameters).Fits limit (.function parameters body :: p) where
  limit := h.limit
  depth := by simp [View.enterFunction, Place.inFunction]

theorem start (u : Program) (limit : Nat) : (u.view limit).Fits limit [] where
  limit := rfl
  depth := by simp [Program.view, Place.inFunction]

end View.Fits

/-- The faults that are not about a name in use. -/
def ruleFaults (fs : List Fault) : List Fault := fs.filter fun f => !f.isUse

@[simp] theorem ruleFaults_append (fs gs : List Fault) :
    ruleFaults (fs ++ gs) = ruleFaults fs ++ ruleFaults gs :=
  List.filter_append ..

/-- Faults of which none is about a name in use. -/
theorem ruleFaults_of_filter {fs : List Fault} (h : fs.filter Fault.isUse = []) : ruleFaults fs = fs := by
  rw [List.filter_eq_nil_iff] at h
  rw [ruleFaults, List.filter_eq_self]
  intro f hf
  simpa using h f hf

theorem ruleFaults_listFaults {v : View} {es : List Expr} (h : ∀ e ∈ es, ruleFaults (e.faults v) = []) :
    ruleFaults (Expr.listFaults v es) = [] := by
  induction es with
  | nil => rfl
  | cons e rest ih =>
    rw [Expr.listFaults, ruleFaults_append, h e List.mem_cons_self,
      ih fun e he => h e (List.mem_cons_of_mem _ he), List.nil_append]

/-- An expression breaks no rule. -/
@[simp] theorem ruleFaults_expr (v : View) (e : Expr) : ruleFaults (e.faults v) = [] := by
  induction e using Expr.induct with
  | literal c l => rfl
  | grouping e l ih | unary op e l ih => exact ih
  | binary a op b l iha ihb | logical a op b l iha ihb => simp [Expr.faults, iha, ihb]
  | access x l =>
    rw [Expr.faults]
    split <;> rfl
  | assign x e l ih =>
    rw [Expr.faults, ruleFaults_append, ih]
    split <;> rfl
  | call f es l ih =>
    rw [Expr.faults, ruleFaults_append, ruleFaults_listFaults ih, View.callFaults]
    split
    · rfl
    · split <;> rfl

@[simp] theorem ruleFaults_option (v : View) (e : Option Expr) :
    ruleFaults (Expr.optionFaults v e) = [] := by
  cases e with
  | none => rfl
  | some e => exact ruleFaults_expr v e

theorem ruleFaults_duplicateFunctions (functions : Scopes Signature) (statements : List Stmt) :
    ruleFaults (duplicateFunctions functions statements) = duplicateFunctions functions statements :=
  ruleFaults_of_filter (filter_duplicateFunctions functions statements)

variable {limit : Nat}

/-- The faults found in the statement and the one of its list about itself are those of the rules at its
sites. -/
def Ruled (limit : Nat) (s : Stmt) : Prop :=
  ∀ (v : View) (p : Place), v.Fits limit p →
    (ruleFaults (s.faults v) ++ StmtSite.duplicates ⟨p, s⟩).Perm
      ((s.stmtSites p).flatMap (StmtSite.faults limit))

theorem perm_listStmtSites {ss : List Stmt} (hss : ∀ s ∈ ss, Ruled limit s) {v : View} {p : Place}
    (hv : v.Fits limit p) {statements : List Stmt} {i : Nat} (hi : statements.drop i = ss)
    {functions : Scopes Signature} (hf : Records functions (statements.take i)) :
    (duplicateFunctions functions ss ++ ruleFaults (Stmt.listFaults v ss)).Perm
      ((Stmt.listStmtSites p statements i ss).flatMap (StmtSite.faults limit)) := by
  induction ss generalizing v i functions with
  | nil => exact .nil
  | cons s rest ih =>
    obtain ⟨hat, hrest⟩ := getElem?_and_drop_of_drop_eq_cons hi
    have hnext : Records (registered functions [s]) (statements.take (i + 1)) := by
      rw [List.take_add_one, hat]
      exact hf.concat s
    have hs := hss s List.mem_cons_self v _ (hv.list statements i)
    have hall := ih (fun t ht => hss t (List.mem_cons_of_mem _ ht)) (hv.after s) hrest hnext
    rw [duplicateFunctions_cons (p := .list statements i :: p) hf, Stmt.listFaults,
      Stmt.listStmtSites, ruleFaults_append, List.flatMap_append]
    -- The fault of the list about the first statement is moved behind the faults in it.
    rw [List.perm_iff_count] at hs hall ⊢
    intro f
    have hsf := hs f
    have hallf := hall f
    simp only [List.count_append] at hsf hallf ⊢
    omega

theorem perm_scopeStmtSites {ss : List Stmt} (hss : ∀ s ∈ ss, Ruled limit s) {v : View} {p : Place}
    (hv : v.Fits limit p) :
    (ruleFaults (scopeFaults v ss)).Perm ((scopeStmtSites p ss).flatMap (StmtSite.faults limit)) := by
  rw [scopeFaults, ruleFaults_append, ruleFaults_duplicateFunctions]
  exact perm_listStmtSites hss (hv.enter ss) rfl (records_push v.functions)

theorem perm_branchStmtSites {s : Stmt} (hs : ∀ t ∈ s.branchStatements, Ruled limit t) {v : View}
    {p : Place} (hv : v.Fits limit p) :
    (ruleFaults (scopeFaults v s.branchStatements)).Perm
      ((branchStmtSites p s).flatMap (StmtSite.faults limit)) := by
  have hscope := perm_scopeStmtSites hs hv
  cases hb : s.isBlock with
  | true =>
    obtain ⟨ss, k, rfl⟩ := Stmt.isBlock_iff.1 hb
    exact hscope
  | false => simpa [branchStmtSites, hb] using hscope

theorem ruled (s : Stmt) : Ruled limit s := by
  induction s using Stmt.scopeInduct with
  | function x t ps body k l ih =>
    intro v p hv
    have hbody := perm_scopeStmtSites ih (hv.enterFunction ps body)
    have hhead : ruleFaults (v.headFaults x ps l) =
        StmtSite.visitFaults limit ⟨p, .function x t ps body k l⟩ := by
      rw [ruleFaults_of_filter (filter_headFaults v x ps l), headFaults_eq v p x t ps body k l, hv.limit]
    have hfaults : (Stmt.function x t ps body k l).faults v =
        v.headFaults x ps l ++ scopeFaults (v.enterFunction ps) body := rfl
    rw [hfaults, Stmt.stmtSites, ruleFaults_append, hhead, List.flatMap_cons, StmtSite.faults]
    rw [List.perm_iff_count] at hbody ⊢
    intro f
    have hbodyf := hbody f
    simp only [List.count_append, scopeStmtSites] at hbodyf ⊢
    omega
  | block ss l ih =>
    intro v p hv
    rw [StmtSite.duplicates_other rfl, List.append_nil]
    exact perm_scopeStmtSites ih hv
  | expression e l | print e l =>
    intro v p hv
    simp [Stmt.faults, Stmt.stmtSites, StmtSite.faults, StmtSite.duplicates, StmtSite.visitFaults]
  | branch c s o l ihs iho =>
    intro v p hv
    have hs := perm_branchStmtSites ihs hv
    rw [faults_branch, stmtSites_branch, StmtSite.duplicates_other rfl, List.append_nil,
      ruleFaults_append, ruleFaults_append, ruleFaults_expr, List.nil_append, List.flatMap_cons,
      List.flatMap_append]
    refine hs.append ?_
    cases o with
    | none => exact .nil
    | some t => simpa using perm_branchStmtSites (iho t rfl) hv
  | declare x t e l =>
    intro v p hv
    simp [Stmt.faults, Stmt.stmtSites, StmtSite.faults, StmtSite.duplicates, StmtSite.visitFaults]
  | loop c body k l ih =>
    intro v p hv
    have hfaults : (Stmt.loop c body k l).faults v = c.faults v ++ scopeFaults v body := rfl
    rw [hfaults, ruleFaults_append, ruleFaults_expr, List.nil_append, StmtSite.duplicates_other rfl,
      List.append_nil]
    exact perm_scopeStmtSites ih hv
  | ret e l =>
    intro v p hv
    have hdepth : (if v.functionDepth = 0 then [Fault.returnOutside l] else []) =
        StmtSite.visitFaults limit ⟨p, .ret e l⟩ := by
      cases hp : p.inFunction with
      | false => simp [StmtSite.visitFaults, hv.depth.2 hp, hp]
      | true =>
        have hne : v.functionDepth ≠ 0 := fun h0 => by simp [hv.depth.1 h0] at hp
        simp [StmtSite.visitFaults, hne, hp]
    have hrule : ruleFaults (StmtSite.visitFaults limit ⟨p, .ret e l⟩) =
        StmtSite.visitFaults limit ⟨p, .ret e l⟩ := by
      rw [StmtSite.visitFaults]
      split <;> rfl
    rw [Stmt.faults, hdepth, ruleFaults_append, hrule, ruleFaults_option]
    simp [Stmt.stmtSites, StmtSite.faults, StmtSite.duplicates]

end Scoping

open Scoping

theorem Program.ruleFaults_check (u : Program) (limit : Nat) :
    (ruleFaults (u.check limit).faults).Perm (u.stmtSites.flatMap (StmtSite.faults limit)) := by
  rw [Program.check_eq, ruleFaults_append, ruleFaults_duplicateFunctions]
  exact perm_listStmtSites (i := 0) (fun s _ => ruled s) (View.Fits.start u limit) rfl fun _ => rfl

/-- The rules about functions, parameters and `return` are exact: what is reported beside the uses of
names is, up to order, what the rules say at the statements of the program. With one report at most for
each use of a name that the check cannot resolve, these are all diagnostics. -/
theorem Program.rule_diagnostics (u : Program) (limit : Nat) :
    IsStmtSurvey u u.stmtSites ∧ IsSurvey u u.sites ∧
      (((u.check limit).faults.filter fun f => !f.isUse).map Fault.diagnostic).Perm
        (u.stmtSites.flatMap (StmtSite.reports limit)) ∧
      (u.check limit).diagnostics.Perm
        (u.stmtSites.flatMap (StmtSite.reports limit) ++ u.sites.filterMap Site.report) ∧
      ∀ site : Site, site.report.isSome → site.isVariable ∨ site.isCall := by
  have hreports : u.stmtSites.flatMap (StmtSite.reports limit) =
      (u.stmtSites.flatMap (StmtSite.faults limit)).map Fault.diagnostic := by
    rw [List.map_flatMap]
    exact congrArg (u.stmtSites.flatMap ·) (funext (StmtSite.reports_eq limit))
  have hrules : (((u.check limit).faults.filter fun f => !f.isUse).map Fault.diagnostic).Perm
      (u.stmtSites.flatMap (StmtSite.reports limit)) := by
    rw [hreports]
    exact (u.ruleFaults_check limit).map Fault.diagnostic
  have huses : ((u.check limit).faults.filter Fault.isUse).map Fault.diagnostic =
      u.sites.filterMap Site.report := by
    rw [Program.filter_faults_check, funext Site.report_eq, List.map_filterMap]
  have hsplit : (u.check limit).faults.Perm (((u.check limit).faults.filter fun f => !f.isUse) ++
      (u.check limit).faults.filter Fault.isUse) :=
    (List.perm_append_comm.trans (List.filter_append_perm Fault.isUse _)).symm
  refine ⟨u.isStmtSurvey_stmtSites, u.isSurvey_sites, hrules, ?_, ?_⟩
  · rw [CheckReport.diagnostics, ← huses]
    exact (hsplit.map Fault.diagnostic).trans (by rw [List.map_append]; exact hrules.append_right _)
  · intro site hsite
    rw [Site.report_eq, Option.isSome_map] at hsite
    obtain ⟨f, hf⟩ := Option.isSome_iff_exists.1 hsite
    obtain ⟨hvariable, hcall, huse⟩ := Site.kind_of_fault? hf
    rw [Fault.isUse, hvariable, hcall] at huse
    simpa using huse

example :
    let f : Stmt := .function "f" .void [] [] 2 2
    let g : Stmt := .function "f" .void [⟨"a", .integer, 4⟩, ⟨"a", .integer, 5⟩, ⟨"a", .integer, 6⟩]
      [.function "f" .void [] [.ret none 7] 7 7] 4 4
    let u : Program := [f, .branch (.access "x" 3) (.ret none 3) none 3, g, f]
    u.stmtSites.flatMap (StmtSite.reports 2) =
      [⟨"'return' outside of a function", 3, none⟩,
       ⟨"duplicate function 'f' in this scope", 4, some ⟨"'f' first declared here", 2⟩⟩,
       ⟨"function 'f' has 3 parameters; at most 2 are allowed", 4, none⟩,
       ⟨"duplicate parameter 'a' in function 'f'", 5, none⟩,
       ⟨"duplicate parameter 'a' in function 'f'", 6, none⟩,
       ⟨"duplicate function 'f' in this scope", 2, some ⟨"'f' first declared here", 2⟩⟩] := by decide

end TreeWalk
