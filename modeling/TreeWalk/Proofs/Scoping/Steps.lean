import TreeWalk.Proofs.Scoping.Effect

/-! The steps of a check. The check is one text for every state that takes steps, so it also runs on a
trace: the checker it started from and the steps taken since. At every point it goes by the checker that the
steps taken so far lead to, so the states in the middle of a visit are those after the first steps of its
trace. With a trace the check gives what it gives without one. The steps of a whole visit are nested: each
scope that is opened is closed again, each body that is entered is left, and what happens in between is
nested itself. -/

namespace TreeWalk

namespace Checker

open Visit

/-! ### Traces -/

/-- The state after some steps. -/
def perform (c : Checker) (steps : List Step) : Checker := steps.foldl next c

theorem perform_cons (c : Checker) (step : Step) (more : List Step) :
    c.perform (step :: more) = (c.next step).perform more := rfl

theorem perform_append (c : Checker) (steps more : List Step) :
    c.perform (steps ++ more) = (c.perform steps).perform more := List.foldl_append

/-- A checker and the steps taken since. -/
structure Trace where
  start : Checker
  steps : List Step := []

namespace Trace

/-- The checker that the steps lead to. -/
def checker (t : Trace) : Checker := t.start.perform t.steps

def followedBy (t : Trace) (steps : List Step) : Trace := { t with steps := t.steps ++ steps }

theorem followedBy_nil (t : Trace) : t.followedBy [] = t := by
  rw [followedBy, List.append_nil]

theorem followedBy_append (t : Trace) (steps more : List Step) :
    t.followedBy (steps ++ more) = (t.followedBy steps).followedBy more := by
  simp [followedBy]

end Trace

instance : Checking Trace where
  checker := Trace.checker
  take t step := t.followedBy [step]
  checker_take t step := perform_append t.start t.steps [step]

theorem run_take_trace (step : Step) (t : Trace) (ch : Channel Unit) :
    StateT.run (take step) ⟨t, ch⟩ = ((), ⟨t.followedBy [step], ch⟩) := rfl

/-! ### Nested steps -/

/-- The steps that change neither the number of scopes nor that of the bodies around. -/
def Step.isPlain : Step → Bool
  | .openScope | .closeScope | .enterBody | .leaveBody => false
  | _ => true

/-- Rows of steps in which scopes and bodies are opened and closed in pairs, one within the other. -/
inductive Nested : List Step → Prop
  | nil : Nested []
  | plain {step : Step} (h : step.isPlain) : Nested [step]
  | append {steps more : List Step} : Nested steps → Nested more → Nested (steps ++ more)
  | scope {inner : List Step} : Nested inner → Nested (.openScope :: (inner ++ [.closeScope]))
  | body {inner : List Step} : Nested inner → Nested (.enterBody :: (inner ++ [.leaveBody]))

/-! ### Tracing an action -/

variable {β γ : Type}

/-- On a trace, `x` does what `y` does on the checker of that trace, and adds nested steps. The two are one
action of the check, on two kinds of state. -/
def Traces (x : Check Trace β) (y : Check Checker β) : Prop :=
  ∀ (t : Trace) (ch : Channel Unit), ∃ (b : β) (left : Channel Unit) (steps : List Step), Nested steps ∧
    StateT.run x ⟨t, ch⟩ = (b, ⟨t.followedBy steps, left⟩) ∧
    StateT.run y ⟨t.checker, ch⟩ = (b, ⟨(t.followedBy steps).checker, left⟩)

theorem traces_pure (b : β) : Traces (pure b) (pure b) := by
  intro t ch
  refine ⟨b, ch, [], .nil, ?_, ?_⟩ <;> rw [t.followedBy_nil, run_pure]

theorem traces_present : Traces present present := by
  intro t ch
  refine ⟨t.checker, ch, [], .nil, ?_, ?_⟩ <;> rw [t.followedBy_nil] <;> rfl

theorem traces_push : Traces (Visit.push ()) (Visit.push ()) := by
  intro t ch
  refine ⟨(), ch.push (), [], .nil, ?_, ?_⟩ <;> rw [t.followedBy_nil, run_push]

theorem traces_take {step : Step} (h : step.isPlain) : Traces (take step) (take step) := by
  intro t ch
  have hstep : (t.followedBy [step]).checker = t.checker.next step := Checking.checker_take t step
  refine ⟨(), ch, [step], .plain h, run_take_trace step t ch, ?_⟩
  rw [run_take, hstep]

theorem Traces.bind {x : Check Trace β} {y : Check Checker β} {f : β → Check Trace γ}
    {g : β → Check Checker γ} (hx : Traces x y) (hf : ∀ b, Traces (f b) (g b)) :
    Traces (x >>= f) (y >>= g) := by
  intro t ch
  obtain ⟨b, middle, steps, hsteps, hrun, hplain⟩ := hx t ch
  obtain ⟨c, left, more, hmore, hthen, hplainThen⟩ := hf b (t.followedBy steps) middle
  refine ⟨c, left, steps ++ more, hsteps.append hmore, ?_, ?_⟩
  · rw [run_bind, hrun, t.followedBy_append]
    exact hthen
  · rw [run_bind, hplain, t.followedBy_append]
    exact hplainThen

theorem Traces.returning {x : Check Trace β} {y : Check Checker β} (h : Traces x y) (c : γ) :
    Traces (do let _ ← x; return c) (do let _ ← y; return c) := h.bind fun _ => traces_pure c

/-- An evaluation has a channel of its own; its steps are those of the visit. -/
theorem Traces.result {x : Check Trace Unit} {y : Check Checker Unit} (h : Traces x y) (line : Line) :
    Traces (Visit.result () line x) (Visit.result () line y) := by
  intro t ch
  obtain ⟨_, frame, steps, hsteps, hrun, hplain⟩ := h t {}
  refine ⟨(), ch, steps, hsteps, ?_, ?_⟩
  · cases h : frame.settle line <;> simp [Visit.result, evaluate, hrun, h]
  · cases h : frame.settle line <;> simp [Visit.result, evaluate, hplain, h]

/-- An action between two steps that open and close something. -/
theorem Traces.bracket {x : Check Trace Unit} {y : Check Checker Unit} {first last : Step}
    (h : Traces x y) (hnested : ∀ inner, Nested inner → Nested (first :: (inner ++ [last]))) :
    Traces (do take first; x; take last) (do take first; y; take last) := by
  intro t ch
  obtain ⟨_, left, inner, hinner, hrun, hplain⟩ := h (t.followedBy [first]) ch
  have hsteps : t.followedBy (first :: (inner ++ [last])) =
      ((t.followedBy [first]).followedBy inner).followedBy [last] := by simp [Trace.followedBy]
  have htake (t : Trace) (step : Step) : (t.followedBy [step]).checker = t.checker.next step :=
    Checking.checker_take t step
  refine ⟨(), left, first :: (inner ++ [last]), hnested inner hinner, ?_, ?_⟩
  · rw [run_bind, run_take_trace, run_bind, hrun, run_take_trace, hsteps]
  · rw [run_bind, run_take, ← htake, run_bind, hplain, run_take, hsteps, ← htake]

theorem Traces.withScope {x : Check Trace Unit} {y : Check Checker Unit} (h : Traces x y) :
    Traces (withScope x) (withScope y) := h.bracket fun _ => .scope

theorem Traces.inFunction {x : Check Trace Unit} {y : Check Checker Unit} (h : Traces x y) :
    Traces (inFunction x) (inFunction y) := h.bracket fun _ => .body

/-! ### The check is traced -/

theorem traces_report (fault : Fault) : Traces (report fault) (report fault) := traces_take rfl

theorem traces_reportIf (condition : Prop) [Decidable condition] (fault : Fault) :
    Traces (reportIf condition fault) (reportIf condition fault) := by
  unfold reportIf
  split
  · exact traces_report fault
  · exact traces_pure ()

theorem traces_registerFunction (x : String) (signature : Signature) :
    Traces (registerFunction x signature) (registerFunction x signature) := by
  refine traces_present.bind fun c => (traces_take rfl).bind fun _ => ?_
  cases (c.functions.declare x signature).1 with
  | ok _ => exact traces_pure ()
  | error first => exact traces_report _

theorem traces_register (ss : List Stmt) : Traces (register ss) (register ss) := by
  induction ss with
  | nil => exact traces_pure ()
  | cons s rest ih =>
    cases s with
    | function x t ps body k l => exact (traces_registerFunction x ⟨ps.length, l⟩).bind fun _ => ih
    | _ => exact ih

theorem traces_declareParameter (f : String) (q : Parameter) :
    Traces (declareParameter f q) (declareParameter f q) := by
  refine traces_present.bind fun c => (traces_take rfl).bind fun _ => ?_
  cases (c.bound.declare q.name q.type).1 with
  | ok _ => exact traces_pure ()
  | error first => exact traces_report _

theorem traces_declareParameters (f : String) (ps : List Parameter) :
    Traces (declareParameters f ps) (declareParameters f ps) := by
  induction ps with
  | nil => exact traces_pure ()
  | cons q rest ih => exact (traces_declareParameter f q).bind fun _ => ih

theorem traces_resolveVariable (x : String) (fault : Fault) :
    Traces (resolveVariable x fault) (resolveVariable x fault) :=
  traces_present.bind fun _ => traces_reportIf _ fault

theorem traces_resolveCall (f : String) (got : Nat) (l : Line) :
    Traces (resolveCall f got l) (resolveCall f got l) := by
  refine traces_present.bind fun c => ?_
  cases c.functions.lookup f with
  | none => exact traces_report _
  | some signature => exact traces_reportIf _ _

theorem traces_visitArguments {es : List Expr} (h : ∀ e ∈ es, Traces (visit e) (visit e)) :
    Traces (visitArguments es) (visitArguments es) := by
  induction es with
  | nil => exact traces_pure ()
  | cons e rest ih =>
    have he := (h e List.mem_cons_self).result e.line
    exact he.bind fun _ => ih fun e he => h e (List.mem_cons_of_mem _ he)

theorem traces_visit (e : Expr) : Traces (visit e) (visit e) := by
  induction e using Expr.induct with
  | literal v l => exact traces_push
  | grouping e l ih | unary op e l ih => exact (ih.result e.line).bind fun _ => traces_push
  | binary a op b l iha ihb | logical a op b l iha ihb =>
    exact (iha.result a.line).bind fun _ => (ihb.result b.line).bind fun _ => traces_push
  | access x l => exact (traces_resolveVariable x _).bind fun _ => traces_push
  | assign x e l ih =>
    exact (ih.result e.line).bind fun _ => (traces_resolveVariable x _).bind fun _ => traces_push
  | call f es l ih =>
    exact (traces_visitArguments ih).bind fun _ => (traces_resolveCall f _ l).bind fun _ => traces_push

theorem traces_expr (e : Expr) : Traces (expr e) (expr e) := (traces_visit e).result e.line

theorem traces_optionalExpr (e : Option Expr) : Traces (optionalExpr e) (optionalExpr e) := by
  cases e with
  | none => exact traces_pure ()
  | some e => exact traces_expr e

theorem traces_stmts {ss : List Stmt} (h : ∀ s ∈ ss, Traces (stmt s) (stmt s)) :
    Traces (stmts ss) (stmts ss) := by
  induction ss with
  | nil => exact traces_pure ()
  | cons s rest ih =>
    have hs := (h s List.mem_cons_self).returning ()
    exact hs.bind fun _ => ih fun t ht => h t (List.mem_cons_of_mem _ ht)

/-- A list of statements in a scope of its own. -/
theorem traces_inScope {ss : List Stmt} (h : ∀ s ∈ ss, Traces (stmt s) (stmt s)) :
    Traces (inScope ss (stmts ss)) (inScope ss (stmts ss)) :=
  ((traces_register ss).bind fun _ => traces_stmts h).withScope

theorem traces_function (x : String) (ps : List Parameter) (l : Line) {body : Check Trace Unit}
    {plain : Check Checker Unit} (h : Traces body plain) :
    Traces (function x ps l body) (function x ps l plain) := by
  have hscope := ((traces_declareParameters x ps).bind fun _ => h.inFunction).withScope
  exact traces_present.bind fun _ => (traces_reportIf _ _).bind fun _ => hscope

theorem traces_stmt (s : Stmt) : Traces (stmt s) (stmt s) := by
  induction s using Stmt.scopeInduct with
  | function x t ps body k l ih =>
    have hbody := traces_function x ps l (traces_inScope ih)
    exact traces_present.bind fun _ => hbody.bind fun _ => traces_present.bind fun _ => traces_pure _
  | block ss l ih => exact (traces_inScope ih).returning _
  | expression e l | print e l => exact (traces_expr e).returning _
  | branch c s o l ihs iho =>
    rw [stmt_branch, stmt_branch]
    refine (traces_expr c).bind fun _ => (traces_inScope ihs).bind fun _ => ?_
    cases o with
    | none => exact traces_pure _
    | some t => exact (traces_inScope (iho t rfl)).returning _
  | declare x t e l =>
    exact (traces_optionalExpr e).bind fun _ => (traces_take rfl).returning _
  | loop c body k l ih => exact (traces_expr c).bind fun _ => (traces_inScope ih).returning _
  | ret e l =>
    exact traces_present.bind fun _ => (traces_reportIf _ _).bind fun _ =>
      (traces_optionalExpr e).returning _

end Checker
end TreeWalk
