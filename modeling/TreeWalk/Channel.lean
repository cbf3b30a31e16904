import TreeWalk.Tree.Basic

/-! Results of visited expressions travel on a channel: a stack of values and the number of pops that
found it empty. A visit of an expression should leave exactly one value. Evaluating an expression runs
its visit on an empty channel, takes the one value off and puts back the channel as it was, so a visit
neither sees nor loses what was pushed before it. -/

namespace TreeWalk

/-- Results waiting to be taken, the latest first. -/
structure Channel (α : Type) where
  values : List α := []
  /-- How many pops found no value. -/
  underflow : Nat := 0
deriving DecidableEq, Repr

/-- The visit of the expression on `line` left `delta` values instead of one. -/
structure Unbalanced where
  line : Line
  delta : Int
deriving DecidableEq, Repr

def Unbalanced.message (e : Unbalanced) : String :=
  "result channel unbalanced after expression on line " ++ toString e.line.toNat ++
    ": expected 1 value, got " ++ toString e.delta

namespace Channel

variable {α : Type}

def push (c : Channel α) (a : α) : Channel α := { c with values := a :: c.values }

def pop (c : Channel α) : Option α × Channel α :=
  match c.values with
  | [] => (none, { c with underflow := c.underflow + 1 })
  | a :: rest => (some a, { c with values := rest })

def depth (c : Channel α) : Nat := c.values.length

def isEmpty (c : Channel α) : Bool := c.values.isEmpty

/-- The values left, less the pops that found none. -/
def delta (c : Channel α) : Int := c.values.length - c.underflow

/-- The one value of a channel on which a visit ran. -/
def settle (c : Channel α) (line : Line) : Except Unbalanced α :=
  match c.values, c.underflow with
  | [a], 0 => .ok a
  | _, _ => .error ⟨line, c.delta⟩

end Channel

/-- A visitor with a state of its own and a channel for the results of expressions. -/
structure Visitor (σ α : Type) where
  state : σ
  channel : Channel α := {}

/-- An action of a visitor. -/
abbrev Visit (σ α : Type) := StateM (Visitor σ α)

namespace Visit

variable {σ α : Type}

def push (a : α) : Visit σ α Unit := modify fun v => { v with channel := v.channel.push a }

def pop : Visit σ α (Option α) :=
  modifyGet fun v => let (a, channel) := v.channel.pop; (a, { v with channel })

/-- The visitor's own state. -/
def state : Visit σ α σ := return (← get).state

/-- Changes the visitor's own state. -/
def update (f : σ → σ) : Visit σ α Unit := modify fun v => { v with state := f v.state }

/-- Puts a channel in place of the present one, which it gives back. -/
def swapChannel (channel : Channel α) : Visit σ α (Channel α) :=
  modifyGet fun v => (v.channel, { v with channel })

/-- Runs the visit of an expression on `line` on a channel of its own and takes its result. -/
def evaluate (line : Line) (visit : Visit σ α Unit) : Visit σ α (Except Unbalanced α) := do
  let outer ← swapChannel {}
  visit
  let frame ← swapChannel outer
  return frame.settle line

/-- The result of a visit; `fallback` if the visit did not leave exactly one. -/
def result (fallback : α) (line : Line) (visit : Visit σ α Unit) : Visit σ α α := do
  match ← evaluate line visit with
  | .ok a => return a
  | .error _ => return fallback

end Visit

end TreeWalk
