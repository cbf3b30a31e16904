import TreeWalk.Proofs.Scoping.Steps

/-! The scopes of a check in every state it goes through. The steps of a check are nested, so after any
number of them the functions and the variables have equally many scopes, one more than were opened and not
yet closed, and the number of bodies around is that of the bodies entered and not yet left. A scope is only
closed while another is open, so the outermost scope is never asked to go. A whole visit restores what it
found, but for the variable the statement declares and the faults. -/

namespace TreeWalk

namespace Scopes

variable {α : Type}

theorem depth_pos (s : Scopes α) : 1 ≤ s.depth := Nat.succ_le_succ (Nat.zero_le _)

theorem depth_declare (s : Scopes α) (x : String) (a : α) : (s.declare x a).2.depth = s.depth := by
  simp [depth, toList, enclosing_declare]

theorem depth_pop {s : Scopes α} (h : 2 ≤ s.depth) : s.pop.2.depth + 1 = s.depth := by
  cases hs : s.enclosing with
  | nil => simp [depth, toList, hs] at h
  | cons outer rest => simp [pop, depth, toList, hs]

end Scopes

namespace Checker

open Scoping Visit

/-! ### One step -/

/-- Between two states as many scopes and bodies came and went as `steps` open and close. -/
structure Accounts (steps : List Step) (before after : Checker) : Prop where
  functions : after.functions.depth + steps.count .closeScope =
    before.functions.depth + steps.count .openScope
  bound : after.bound.depth + steps.count .closeScope = before.bound.depth + steps.count .openScope
  bodies : after.functionDepth + steps.count .leaveBody = before.functionDepth + steps.count .enterBody

theorem accounts_nil (c : Checker) : Accounts [] c c := ⟨rfl, rfl, rfl⟩

theorem Accounts.append {steps more : List Step} {a b c : Checker} (h : Accounts steps a b)
    (hmore : Accounts more b c) : Accounts (steps ++ more) a c := by
  obtain ⟨hf, hb, hd⟩ := h
  obtain ⟨mf, mb, md⟩ := hmore
  constructor <;> simp only [List.count_append] <;> omega

/-- A plain step keeps the numbers of scopes and bodies, whatever it declares or reports. -/
theorem plain_accounts {step : Step} (h : step.isPlain) (c : Checker) :
    Accounts [step] c (c.next step) := by
  cases step with
  | openScope | closeScope | enterBody | leaveBody => simp [Step.isPlain] at h
  | declareFunction x signature => exact ⟨Scopes.depth_declare c.functions x signature, rfl, rfl⟩
  | declareVariable x t => exact ⟨rfl, Scopes.depth_declare c.bound x t, rfl⟩
  | report fault => exact ⟨rfl, rfl, rfl⟩

theorem openScope_accounts (c : Checker) : Accounts [.openScope] c (c.next .openScope) := ⟨rfl, rfl, rfl⟩

/-- A scope is closed where another one is around it. -/
theorem closeScope_accounts {c : Checker} (hfunctions : 2 ≤ c.functions.depth)
    (hbound : 2 ≤ c.bound.depth) : Accounts [.closeScope] c (c.next .closeScope) :=
  ⟨Scopes.depth_pop hfunctions, Scopes.depth_pop hbound, rfl⟩

theorem enterBody_accounts (c : Checker) : Accounts [.enterBody] c (c.next .enterBody) := ⟨rfl, rfl, rfl⟩

theorem leaveBody_accounts {c : Checker} (h : 1 ≤ c.functionDepth) :
    Accounts [.leaveBody] c (c.next .leaveBody) :=
  ⟨rfl, rfl, Nat.sub_add_cancel h⟩

/-! ### Nested steps -/

/-- What is opened is closed in the end. -/
theorem Nested.settled {steps : List Step} (h : Nested steps) :
    steps.count .openScope = steps.count .closeScope ∧
      steps.count .enterBody = steps.count .leaveBody := by
  induction h with
  | nil => exact ⟨rfl, rfl⟩
  | @plain step h =>
    cases step with
    | openScope | closeScope | enterBody | leaveBody => simp [Step.isPlain] at h
    | _ => exact ⟨rfl, rfl⟩
  | append _ _ ih ihmore => simp only [List.count_append, ih, ihmore, and_self]
  | scope _ ih | body _ ih => simp [ih]

/-- Being somewhere in a row of steps that an opening and a closing step stand around. -/
theorem accounts_bracket {first last : Step} {inner done : List Step} {c : Checker}
    (hdone : done <+: first :: (inner ++ [last])) (hfirst : Accounts [first] c (c.next first))
    (hinner : ∀ part, part <+: inner → Accounts part (c.next first) ((c.next first).perform part))
    (hlast : Accounts [last] ((c.next first).perform inner) (((c.next first).perform inner).next last)) :
    Accounts done c (c.perform done) := by
  obtain rfl | ⟨part, rfl, hpart⟩ := List.prefix_cons_iff.1 hdone
  · exact accounts_nil _
  · rw [perform_cons]
    refine hfirst.append ?_
    obtain rfl | hin := List.prefix_concat_iff.1 hpart
    · rw [perform_append]
      exact (hinner inner (List.prefix_refl inner)).append hlast
    · exact hinner part hin

/-- After any part of nested steps, as many scopes and bodies came and went as that part opens and
closes. -/
theorem Nested.accounts {steps done : List Step} (h : Nested steps) (hdone : done <+: steps)
    (c : Checker) : Accounts done c (c.perform done) := by
  induction h generalizing done c with
  | nil =>
    rw [List.prefix_nil.1 hdone]
    exact accounts_nil _
  | plain hplain =>
    obtain rfl | ⟨part, rfl, hpart⟩ := List.prefix_cons_iff.1 hdone
    · exact accounts_nil _
    · rw [List.prefix_nil.1 hpart]
      exact plain_accounts hplain c
  | @append steps more _ _ ih ihmore =>
    obtain hin | ⟨part, rfl⟩ := List.prefix_or_prefix_of_prefix hdone (List.prefix_append steps more)
    · exact ih hin c
    · have hpart : part <+: more := (List.prefix_append_right_inj steps).1 hdone
      rw [perform_append]
      exact (ih (List.prefix_refl steps) c).append (ihmore hpart _)
  | @scope inner hinner ih =>
    -- The scopes opened within are closed by now, so two are left: the one opened here and one around it.
    have hin := ih (List.prefix_refl inner) (c.next .openScope)
    have hsettled := hinner.settled.1
    refine accounts_bracket hdone (openScope_accounts c) (fun part hpart => ih hpart _)
      (closeScope_accounts ?_ ?_)
    · have hopened : (c.next .openScope).functions.depth = c.functions.depth + 1 := rfl
      have houter := c.functions.depth_pos
      have hnow := hin.functions
      omega
    · have hopened : (c.next .openScope).bound.depth = c.bound.depth + 1 := rfl
      have houter := c.bound.depth_pos
      have hnow := hin.bound
      omega
  | @body inner hinner ih =>
    have hin := ih (List.prefix_refl inner) (c.next .enterBody)
    have hsettled := hinner.settled.2
    refine accounts_bracket hdone (enterBody_accounts c) (fun part hpart => ih hpart _)
      (leaveBody_accounts ?_)
    have hentered : (c.next .enterBody).functionDepth = c.functionDepth + 1 := rfl
    have hnow := hin.bodies
    omega

/-! ### Sessions -/

/-- What a check can be asked for from outside. -/
inductive Request where
  /-- To register the functions declared in a list of statements. -/
  | register (statements : List Stmt)
  | visit (s : Stmt)
  | evaluate (e : Expr)
  /-- To visit an expression and leave its mark on the channel. -/
  | accept (e : Expr)
  /-- To go on with another channel. -/
  | setChannel (channel : Channel Unit)

section

variable {σ : Type} [Checking σ]

def Request.action : Request → Check σ Unit
  | .register statements => Checker.register statements
  | .visit s => discard (stmt s)
  | .evaluate e => expr e
  | .accept e => Checker.visit e
  | .setChannel channel => discard (Visit.swapChannel channel)

/-- Serves requests one after the other. -/
def serve : List Request → Check σ Unit
  | [] => return
  | r :: rest => do
    r.action
    serve rest

end

theorem traces_request (r : Request) : Traces r.action r.action := by
  cases r with
  | register statements => exact traces_register statements
  | visit s => exact (traces_stmt s).returning ()
  | evaluate e => exact traces_expr e
  | accept e => exact traces_visit e
  | setChannel channel =>
    intro t ch
    refine ⟨(), channel, [], .nil, ?_, ?_⟩ <;> rw [t.followedBy_nil] <;> rfl

theorem traces_serve (session : List Request) : Traces (serve session) (serve session) := by
  induction session with
  | nil => exact traces_pure ()
  | cons r rest ih => exact (traces_request r).bind fun _ => ih

/-- What a check of a program is asked for. -/
def programSession (u : Program) : List Request := .register u :: u.map .visit

theorem run_serve_visits (u : Program) (w : Visitor Checker Unit) :
    (StateT.run (serve (u.map .visit)) w).2 = (StateT.run (topLevel u) w).2 := by
  induction u generalizing w with
  | nil => rfl
  | cons s rest ih => exact ih (StateT.run (stmt s) w).2

theorem faults_check (u : Program) (limit : Nat) :
    (u.check limit).faults = (StateT.run (serve (programSession u)) (start limit)).2.state.faults := by
  have hvisits := run_serve_visits u (StateT.run (register u) (start limit)).2
  exact congrArg (·.state.faults) hvisits.symm

/-- The scopes and bodies of a check that took the steps `done` since its start. -/
structure IsLevel (done : List Step) (c : Checker) : Prop where
  same : c.functions.depth = c.bound.depth
  pos : 1 ≤ c.functions.depth
  scopes : c.functions.depth + done.count .closeScope = 1 + done.count .openScope
  bodies : c.functionDepth + done.count .leaveBody = done.count .enterBody

theorem Accounts.isLevel {done : List Step} {limit : Nat} {c : Checker}
    (h : Accounts done (start limit).state c) : IsLevel done c := by
  have hfunctions : c.functions.depth + done.count .closeScope = 1 + done.count .openScope := h.functions
  have hbound : c.bound.depth + done.count .closeScope = 1 + done.count .openScope := h.bound
  have hbodies : c.functionDepth + done.count .leaveBody = 0 + done.count .enterBody := h.bodies
  exact ⟨by omega, c.functions.depth_pos, hfunctions, by omega⟩

/-! ### Visits leave one binding -/

/-- What the visit of a statement leaves behind. -/
structure Restores (s : Stmt) (before after : Visitor Checker Unit) : Prop where
  functions : after.state.functions = before.state.functions
  functionDepth : after.state.functionDepth = before.state.functionDepth
  limit : after.state.limit = before.state.limit
  channel : after.channel = before.channel
  /-- A variable is added to the innermost scope where its name is not bound there. -/
  binds : ∀ x t e l, s = .declare x t e l → before.state.bound.innermost.lookup x = none →
    after.state.bound =
      { before.state.bound with innermost := (x, t) :: before.state.bound.innermost }
  /-- Nothing else is added. -/
  keeps : (∀ x t e l, s = .declare x t e l → before.state.bound.innermost.lookup x ≠ none) →
    after.state.bound = before.state.bound
  faults : before.state.faults <+: after.state.faults

theorem boundAfter_of_fresh {bound : Scopes Ty} {x : String} (h : bound.innermost.lookup x = none)
    (t : Ty) (e : Option Expr) (l : Line) :
    boundAfter bound (.declare x t e l) = { bound with innermost := (x, t) :: bound.innermost } := by
  simp [boundAfter, Scopes.declare, h]

theorem boundAfter_of_bound {bound : Scopes Ty} {s : Stmt}
    (h : ∀ x t e l, s = .declare x t e l → bound.innermost.lookup x ≠ none) :
    boundAfter bound s = bound := by
  cases s with
  | declare x t e l =>
    obtain ⟨first, hfirst⟩ := Option.ne_none_iff_exists'.1 (h x t e l rfl)
    simp [boundAfter, Scopes.declare, hfirst]
  | _ => rfl

theorem stmt_restores (s : Stmt) (w : Visitor Checker Unit) :
    Restores s w (StateT.run (stmt s) w).2 := by
  have hrun : StateT.run (stmt s) w = (s.slot w.state.view,
      ⟨(w.state.view.after s).checker (w.state.faults ++ s.faults w.state.view), w.channel⟩) :=
    tracks s w.state.view w.state.faults w.channel
  rw [hrun]
  exact {
    functions := rfl
    functionDepth := rfl
    limit := rfl
    channel := rfl
    binds := by
      rintro x t e l rfl hfresh
      exact boundAfter_of_fresh hfresh t e l
    keeps := boundAfter_of_bound
    faults := List.prefix_append _ _ }

/-- The start of a check that keeps its steps. -/
def tracedStart (limit : Nat) : Visitor Trace Unit := { state := { start := (start limit).state } }

end Checker
end TreeWalk
