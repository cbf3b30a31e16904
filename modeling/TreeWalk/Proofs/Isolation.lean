import TreeWalk.Calculator
import TreeWalk.Proofs.Balance

/-! Evaluation isolates what it evaluates, however a visitor treats its channel. A routine is all that a
visitor may do for an expression: any pushes, pops and nested evaluations, in an order that may depend on
what it has seen. A recorded routine does the same and writes down each push and each pop, with one record
for every frame that it opens. Whatever the routine, evaluating it gives the channel back as it was, and
the record of its frame says what the outcome is. An error may count one value, the number expected: the
values left and the pops that missed are counted against each other. -/

namespace TreeWalk

open Visit

variable {σ α : Type}

/-! ### Routines -/

/-- What a visitor does until it is done. -/
inductive Routine (σ α : Type) where
  | done
  /-- Changes the visitor's own state and goes on as the state before says. -/
  | access (change : σ → σ) (next : σ → Routine σ α)
  | push (a : α) (next : Routine σ α)
  | pop (next : Option α → Routine σ α)
  | evaluate (line : Line) (visit : Routine σ α) (next : Except Unbalanced α → Routine σ α)

/-- What happens on a frame: a push, a pop with its result, or a frame that is opened and left. -/
inductive Event (α : Type) where
  | push (a : α)
  | pop (result : Option α)
  | frame (events : List (Event α))

namespace Routine

def run : Routine σ α → Visit σ α Unit
  | .done => pure ()
  | .access change next => do
    let s ← Visit.state
    Visit.update change
    (next s).run
  | .push a next => do
    Visit.push a
    next.run
  | .pop next => do
    let result ← Visit.pop
    (next result).run
  | .evaluate line visit next => do
    let outcome ← Visit.evaluate line visit.run
    (next outcome).run

/-- Adds an event to the record. -/
def note (event : Event α) (next : Routine (σ × List (Event α)) α) : Routine (σ × List (Event α)) α :=
  .access (fun r => (r.1, r.2 ++ [event])) fun _ => next

/-- The routine with a record beside the visitor's own state. An evaluation starts a new record, which
then is one event of the old one. -/
def recorded : Routine σ α → Routine (σ × List (Event α)) α
  | .done => .done
  | .access change next => .access (fun r => (change r.1, r.2)) fun r => (next r.1).recorded
  | .push a next => .push a (note (.push a) next.recorded)
  | .pop next => .pop fun result => note (.pop result) (next result).recorded
  | .evaluate line visit next =>
    .access (fun r => (r.1, [])) fun outer =>
      .evaluate line visit.recorded fun outcome =>
        .access (fun r => (r.1, outer.2 ++ [.frame r.2])) fun _ => (next outcome).recorded

end Routine

/-! ### Records -/

namespace Event

def isPush : Event α → Bool
  | .push _ => true
  | _ => false

def isPop : Event α → Bool
  | .pop _ => true
  | _ => false

/-- A pop that found nothing. -/
def isMiss : Event α → Bool
  | .pop none => true
  | _ => false

/-- The values on a frame after an event. -/
def apply (values : List α) : Event α → List α
  | .push a => a :: values
  | .pop _ => values.tail
  | .frame _ => values

mutual

/-- The frames opened by an event, at any depth. -/
def frames : Event α → List (List (Event α))
  | .push _ => []
  | .pop _ => []
  | .frame events => events :: framesIn events

def framesIn : List (Event α) → List (List (Event α))
  | [] => []
  | event :: rest => event.frames ++ framesIn rest

end

/-- The values that the events of a frame leave on it, the latest first. -/
def left (events : List (Event α)) : List α := events.foldl apply []

/-- Events that take back all that they push and nothing else. -/
inductive Nested : List (Event α) → Prop where
  | nil : Nested []
  | pair {a inner rest} (hinner : Nested inner) (hrest : Nested rest) :
      Nested (.push a :: (inner ++ .pop (some a) :: rest))
  | frame {inner rest} (hrest : Nested rest) : Nested (.frame inner :: rest)

/-- Every pop that gives a value takes back a push before it on the same frame. -/
def TakesOwn (events : List (Event α)) : Prop :=
  ∀ before a after, events = before ++ .pop (some a) :: after →
    ∃ earlier between, before = earlier ++ .push a :: between ∧ Nested between

/-- The same on a frame and on all frames opened meanwhile. -/
def AllTakeOwn (events : List (Event α)) : Prop := ∀ frame ∈ events :: framesIn events, TakesOwn frame

theorem Nested.append {es fs : List (Event α)} (he : Nested es) (hf : Nested fs) : Nested (es ++ fs) := by
  induction he with
  | nil => exact hf
  | pair hinner _ _ ih =>
    simp only [List.cons_append, List.append_assoc]
    exact .pair hinner ih
  | frame _ ih => exact .frame ih

/-- The push of every value is in the events, and what comes after it up to the next such push takes back
what it pushes. -/
def Stacked : List α → List (Event α) → Prop
  | [], _ => True
  | a :: rest, events =>
    ∃ earlier between, events = earlier ++ .push a :: between ∧ Nested between ∧ Stacked rest earlier

theorem Stacked.append {values : List α} {events more : List (Event α)} (h : Stacked values events)
    (hmore : Nested more) : Stacked values (events ++ more) := by
  cases values with
  | nil => trivial
  | cons a rest =>
    obtain ⟨earlier, between, rfl, hbetween, hrest⟩ := h
    exact ⟨earlier, between ++ more, by simp, hbetween.append hmore, hrest⟩

theorem Stacked.pop {a : α} {values : List α} {events : List (Event α)}
    (h : Stacked (a :: values) events) : Stacked values (events ++ [.pop (some a)]) := by
  obtain ⟨earlier, between, rfl, hbetween, hrest⟩ := h
  have hpair : Nested (.push a :: (between ++ [.pop (some a)])) := .pair hbetween .nil
  have hall := hrest.append hpair
  simpa using hall

theorem TakesOwn.concat {events : List (Event α)} {event : Event α} (h : TakesOwn events)
    (hlast : ∀ a, event = .pop (some a) →
      ∃ earlier between, events = earlier ++ .push a :: between ∧ Nested between) :
    TakesOwn (events ++ [event]) := by
  intro before a after heq
  rcases List.eq_nil_or_concat after with rfl | ⟨mid, last, rfl⟩
  · obtain ⟨rfl, hevent⟩ := List.append_inj' heq rfl
    exact hlast a (List.singleton_inj.1 hevent)
  · rw [List.concat_eq_append, ← List.cons_append, ← List.append_assoc] at heq
    exact h before a mid (List.append_inj' heq rfl).1

theorem framesIn_append (events more : List (Event α)) :
    framesIn (events ++ more) = framesIn events ++ framesIn more := by
  induction events with
  | nil => rfl
  | cons event rest ih => simp [framesIn, ih]

theorem left_concat (events : List (Event α)) (event : Event α) :
    left (events ++ [event]) = event.apply (left events) := by
  simp [left]

end Event

open Event

/-- The channel is what the events, from an empty frame on, have made of it. -/
structure Describes (events : List (Event α)) (c : Channel α) : Prop where
  values : c.values = left events
  underflow : c.underflow = events.countP isMiss
  balance : c.values.length + events.countP isPop = events.countP isPush + c.underflow
  stacked : Stacked c.values events
  own : AllTakeOwn events

namespace Describes

variable {events : List (Event α)} {c : Channel α}

theorem empty : Describes [] ({} : Channel α) where
  values := rfl
  underflow := rfl
  balance := rfl
  stacked := trivial
  own := by
    intro frame hframe before a after heq
    rw [List.mem_singleton.1 hframe] at heq
    simp at heq

theorem own_concat (h : Describes events c) {event : Event α}
    (hlast : ∀ a, event = .pop (some a) → ∃ rest, c.values = a :: rest)
    (hframes : ∀ frame ∈ event.frames, TakesOwn frame) : AllTakeOwn (events ++ [event]) := by
  intro frame hframe
  simp only [framesIn_append, framesIn, List.append_nil, List.mem_cons, List.mem_append] at hframe
  rcases hframe with rfl | hframe | hframe
  · refine (h.own events List.mem_cons_self).concat fun a ha => ?_
    obtain ⟨rest, hrest⟩ := hlast a ha
    have hstacked := h.stacked
    rw [hrest] at hstacked
    obtain ⟨earlier, between, heq, hbetween, -⟩ := hstacked
    exact ⟨earlier, between, heq, hbetween⟩
  · exact h.own frame (List.mem_cons_of_mem _ hframe)
  · exact hframes frame hframe

theorem push (h : Describes events c) (a : α) : Describes (events ++ [.push a]) (c.push a) where
  values := by simp [left_concat, apply, Channel.push, h.values]
  underflow := by simp [Channel.push, isMiss, h.underflow]
  balance := by
    have hb := h.balance
    simp only [Channel.push, List.length_cons, List.countP_append, List.countP_singleton, isPush, isPop]
    grind
  stacked := ⟨events, [], rfl, .nil, h.stacked⟩
  own := h.own_concat (by simp) (by simp [frames])

theorem pop (h : Describes events c) : Describes (events ++ [.pop c.pop.1]) c.pop.2 := by
  obtain ⟨values, underflow⟩ := c
  have hvalues : values = left events := h.values
  have hunderflow : underflow = events.countP isMiss := h.underflow
  have hbalance : values.length + events.countP isPop = events.countP isPush + underflow := h.balance
  constructor
  · cases values <;> simp [left_concat, apply, Channel.pop, ← hvalues]
  · cases values <;> simp [Channel.pop, isMiss, ← hunderflow]
  · simp only [List.countP_append, List.countP_singleton, isPush, isPop]
    cases values <;> simp only [Channel.pop] <;> grind
  · cases values with
    | nil => trivial
    | cons a rest => exact h.stacked.pop
  · exact h.own_concat (by cases values <;> simp [Channel.pop]) (by simp [frames])

theorem frame (h : Describes events c) {inner : List (Event α)} (hinner : AllTakeOwn inner) :
    Describes (events ++ [.frame inner]) c where
  values := by simp [left_concat, apply, h.values]
  underflow := by simp [isMiss, h.underflow]
  balance := by simp [isPush, isPop, h.balance]
  stacked := h.stacked.append (.frame .nil)
  own := h.own_concat (by simp) hinner

end Describes

/-! ### Runs of routines -/

theorem Visit.run_evaluate_eq (line : Line) (visit : Visit σ α Unit) (v : Visitor σ α) :
    StateT.run (Visit.evaluate line visit) v =
      ((StateT.run visit ⟨v.state, {}⟩).2.channel.settle line,
        ⟨(StateT.run visit ⟨v.state, {}⟩).2.state, v.channel⟩) := rfl

namespace Routine

/-- A routine and its recorded form end alike, and the record describes the channel. -/
theorem run_recorded (r : Routine σ α) (s : σ) {events : List (Event α)} {c : Channel α}
    (h : Describes events c) :
    ∃ s' events' c', Describes events' c' ∧ StateT.run r.run ⟨s, c⟩ = ((), ⟨s', c'⟩) ∧
      StateT.run r.recorded.run ⟨(s, events), c⟩ = ((), ⟨(s', events'), c'⟩) := by
  induction r generalizing s events c with
  | done => exact ⟨s, events, c, h, rfl, rfl⟩
  | access change next ih => exact ih s (change s) h
  | push a next ih => exact ih s (h.push a)
  | pop next ih => exact ih c.pop.1 s h.pop
  | evaluate line visit next ihvisit ihnext =>
    -- The frame starts with an empty record; the record outside goes on with that frame as an event.
    obtain ⟨s', inner, c', hinner, hplain, hnoted⟩ := ihvisit s Describes.empty
    obtain ⟨s'', events', c'', hevents, hplain', hnoted'⟩ :=
      ihnext (c'.settle line) s' (h.frame hinner.own)
    refine ⟨s'', events', c'', hevents, ?_, ?_⟩
    · simp only [run, run_bind, run_evaluate_eq, hplain]
      exact hplain'
    · simp only [recorded, run, run_bind, run_state, run_update, run_evaluate_eq, hnoted]
      exact hnoted'

/-- The record of a routine on a new frame. -/
def record (r : Routine σ α) (s : σ) : List (Event α) :=
  (StateT.run r.recorded.run ⟨(s, []), {}⟩).2.state.2

/-- The visitor's own state after a routine on a new frame. -/
def finish (r : Routine σ α) (s : σ) : σ := (StateT.run r.run ⟨s, {}⟩).2.state

/-- The frame of a routine is the one that its record describes, and evaluating the routine, with the record
or without it, settles that frame. -/
theorem exists_frame (r : Routine σ α) (s : σ) :
    ∃ frame, Describes (r.record s) frame ∧
      (∀ line c, StateT.run (Visit.evaluate line r.run) ⟨s, c⟩ = (frame.settle line, ⟨r.finish s, c⟩)) ∧
      ∀ line c, StateT.run (Visit.evaluate line r.recorded.run) ⟨(s, []), c⟩ =
        (frame.settle line, ⟨(r.finish s, r.record s), c⟩) := by
  obtain ⟨s', events, frame, hevents, hplain, hnoted⟩ := r.run_recorded s Describes.empty
  have hrecord : r.record s = events := by rw [record, hnoted]
  have hfinish : r.finish s = s' := by rw [finish, hplain]
  rw [hrecord, hfinish]
  refine ⟨frame, hevents, fun line c => ?_, fun line c => ?_⟩
  · rw [run_evaluate_eq, hplain]
  · rw [run_evaluate_eq, hnoted]

end Routine

/-- Only a frame with one value and no miss gives a value. -/
theorem Channel.settle_eq_ok_iff (c : Channel α) (line : Line) (a : α) :
    c.settle line = .ok a ↔ c.underflow = 0 ∧ c.values = [a] := by
  unfold settle
  split
  · rename_i b hvalues hunderflow
    simp [hvalues, hunderflow]
  · rename_i hne
    simp only [reduceCtorEq, false_iff, not_and]
    exact fun hunderflow hvalues => hne a hvalues hunderflow

theorem Channel.settle_eq_error {c : Channel α} {line : Line} (h : ∀ a, c.settle line ≠ .ok a) :
    c.settle line = .error ⟨line, c.delta⟩ := by
  unfold settle at h ⊢
  split
  · rename_i a hvalues hunderflow
    simp [hvalues, hunderflow] at h
  · rfl

/-- An evaluation leaves every channel as it was. What it gives and what it does to the visitor is settled by
the visit on a new frame, so it does not depend on that channel. On its frame and on the frames opened
meanwhile, a pop gives only what was pushed on the same frame. The outcome is the one value that the pushes
and pops of the visit leave if no pop missed, and otherwise an error that counts the pushes and takes off the
attempted pops. -/
theorem evaluate_isolates (visit : Expr → Routine σ α) (e : Expr) (s : σ) :
    let record := (visit e).record s
    ∃ outcome : Except Unbalanced α,
      (∀ c, StateT.run (evaluate e.line (visit e).run) ⟨s, c⟩ = (outcome, ⟨(visit e).finish s, c⟩)) ∧
      (∀ c, StateT.run (evaluate e.line (visit e).recorded.run) ⟨(s, []), c⟩ =
        (outcome, ⟨((visit e).finish s, record), c⟩)) ∧
      AllTakeOwn record ∧
      (∀ a, outcome = .ok a ↔ (∀ event ∈ record, ¬ event.isMiss) ∧ left record = [a]) ∧
      ((∀ a, outcome ≠ .ok a) →
        outcome = .error ⟨e.line, record.countP isPush - record.countP isPop⟩) := by
  intro record
  obtain ⟨frame, hframe, hplain, hnoted⟩ := (visit e).exists_frame s
  refine ⟨frame.settle e.line, hplain e.line, hnoted e.line, hframe.own, fun a => ?_, fun h => ?_⟩
  · rw [frame.settle_eq_ok_iff, hframe.underflow, hframe.values, List.countP_eq_zero]
  · have hdelta : frame.delta = record.countP isPush - record.countP isPop := by
      have hbalance : frame.values.length + record.countP isPop =
          record.countP isPush + frame.underflow := hframe.balance
      unfold Channel.delta
      omega
    rw [Channel.settle_eq_error h, hdelta]

example :
    let greedy : Routine Unit Int := .pop fun _ => .pop fun _ => .push 7 .done
    StateT.run (evaluate 3 greedy.run) ⟨(), ⟨[200, 100], 0⟩⟩ =
      (.error ⟨3, -1⟩, ⟨(), ⟨[200, 100], 0⟩⟩) := rfl

/-! ### What an error counts -/

/-- An error counts one value where the values left make up for the pops that missed. -/
theorem Channel.settle_eq_error_one_iff (c : Channel α) (line : Line) :
    c.settle line = .error ⟨line, 1⟩ ↔ 0 < c.underflow ∧ c.values.length = c.underflow + 1 := by
  by_cases hok : ∃ a, c.settle line = .ok a
  · obtain ⟨a, ha⟩ := hok
    have hempty := ((c.settle_eq_ok_iff line a).1 ha).1
    simp [ha, hempty]
  · have herror := Channel.settle_eq_error (not_exists.1 hok)
    rw [herror]
    have hdelta : c.delta = (c.values.length : Int) - c.underflow := rfl
    simp only [Except.error.injEq, Unbalanced.mk.injEq, true_and, hdelta]
    constructor
    · intro hone
      refine ⟨Nat.pos_of_ne_zero fun hzero => hok ?_, by omega⟩
      obtain ⟨a, ha⟩ := List.length_eq_one_iff.1 (by omega : c.values.length = 1)
      exact ⟨a, (c.settle_eq_ok_iff line a).2 ⟨hzero, ha⟩⟩
    · omega

/-- An evaluation that goes wrong counts the values left on its frame less the pops that missed. The count is
one, the number expected, if and only if some pop missed and the values left are one more than the misses. So
where no pop misses, an error never counts one. -/
theorem evaluate_counts_one_iff (visit : Expr → Routine σ α) (e : Expr) (s : σ) (c : Channel α) :
    let outcome := (StateT.run (evaluate e.line (visit e).run) ⟨s, c⟩).1
    let record := (visit e).record s
    (∀ error, outcome = .error error →
      error.line = e.line ∧ error.delta = (left record).length - record.countP isMiss) ∧
    (outcome = .error ⟨e.line, 1⟩ ↔
      0 < record.countP isMiss ∧ (left record).length = record.countP isMiss + 1) ∧
    ((∀ event ∈ record, ¬ event.isMiss) → ∀ error, outcome = .error error → error.delta ≠ 1) := by
  intro outcome record
  obtain ⟨frame, hframe, hplain, -⟩ := (visit e).exists_frame s
  have houtcome : outcome = frame.settle e.line := congrArg Prod.fst (hplain e.line c)
  have hcounts (error : Unbalanced) (h : outcome = .error error) :
      error.line = e.line ∧ error.delta = (left record).length - record.countP isMiss := by
    have hfail : ∀ a, frame.settle e.line ≠ .ok a := by
      intro a ha
      rw [houtcome, ha] at h
      simp at h
    rw [houtcome, Channel.settle_eq_error hfail] at h
    rw [← Except.error.inj h, ← hframe.values, ← hframe.underflow]
    exact ⟨rfl, rfl⟩
  have hone : outcome = .error ⟨e.line, 1⟩ ↔
      0 < record.countP isMiss ∧ (left record).length = record.countP isMiss + 1 := by
    rw [houtcome, Channel.settle_eq_error_one_iff, hframe.values, hframe.underflow]
  refine ⟨hcounts, hone, fun hnone error herror hdelta => ?_⟩
  have hzero : record.countP isMiss = 0 := List.countP_eq_zero.2 hnone
  have hpair : error = ⟨e.line, 1⟩ := by rw [← (hcounts error herror).1, ← hdelta]
  have hmiss := (hone.1 (hpair ▸ herror)).1
  omega

/-- A visit that pops once too often and then pushes two values fails with the count one. -/
theorem evaluate_counts_one :
    StateT.run (Calculator.evaluate (.literal (.string "p12") 4)) Calculator.start =
        (.error ⟨4, 1⟩, Calculator.start) ∧
      Unbalanced.message ⟨4, 1⟩ =
        "result channel unbalanced after expression on line 4: expected 1 value, got 1" := by
  constructor
  · rfl
  · decide

end TreeWalk
