import TreeWalk.Channel

/-! Balanced visits. A visit leaves a value if, from every visitor, it adds that value to the channel
and neither takes nor sees what the channel held before; meanwhile it may change the visitor's own state.
Evaluating such a visit gives the value, so the fallback of `result` is never used, and the channel is
the old one. -/

namespace TreeWalk.Visit

variable {σ α β γ : Type}

/-! ### Running an action -/

@[simp high] theorem run_bind (x : Visit σ α β) (f : β → Visit σ α γ) (v : Visitor σ α) :
    StateT.run (x >>= f) v = StateT.run (f (StateT.run x v).1) (StateT.run x v).2 := rfl

@[simp high] theorem run_pure (b : β) (v : Visitor σ α) :
    StateT.run (pure b : Visit σ α β) v = (b, v) := rfl

@[simp] theorem run_push (a : α) (v : Visitor σ α) :
    StateT.run (push a) v = ((), ⟨v.state, v.channel.push a⟩) := rfl

@[simp] theorem run_state (v : Visitor σ α) : StateT.run state v = (v.state, v) := rfl

@[simp] theorem run_update (f : σ → σ) (v : Visitor σ α) :
    StateT.run (update f) v = ((), ⟨f v.state, v.channel⟩) := rfl

@[simp] theorem run_swapChannel (channel : Channel α) (v : Visitor σ α) :
    StateT.run (swapChannel channel) v = (v.channel, ⟨v.state, channel⟩) := rfl

/-! ### Visits that leave one value -/

/-- The visit adds `a` to any channel and changes the visitor's own state by `step`. -/
def Leaves (visit : Visit σ α Unit) (a : α) (step : σ → σ) : Prop :=
  ∀ v, StateT.run visit v = ((), ⟨step v.state, v.channel.push a⟩)

theorem run_evaluate {visit : Visit σ α Unit} {a : α} {step : σ → σ} (h : Leaves visit a step)
    (line : Line) (v : Visitor σ α) :
    StateT.run (evaluate line visit) v = (.ok a, ⟨step v.state, v.channel⟩) := by
  simp only [evaluate, run_bind, run_swapChannel, run_pure]
  rw [h]
  rfl

theorem run_result {visit : Visit σ α Unit} {a : α} {step : σ → σ} (h : Leaves visit a step)
    (fallback : α) (line : Line) (v : Visitor σ α) :
    StateT.run (result fallback line visit) v = (a, ⟨step v.state, v.channel⟩) := by
  simp [result, run_evaluate h]

end TreeWalk.Visit
