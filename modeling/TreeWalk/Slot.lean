import TreeWalk.Tree.Basic

/-! A slot for the result of visiting a statement. It is empty or holds a content of some kind: a text, a
flag, a number, a count or the record of a checked function. Who looks at it or takes its content names the
kind of content expected; a pass that finds no content of that kind goes on with a default. -/

namespace TreeWalk

/-- A function that was checked, and the number of faults in it. -/
structure CheckedFunction where
  name : String
  arity : Nat
  returnType : Ty
  line : Line
  errors : Nat
deriving DecidableEq, Repr

/-- What a slot can hold. -/
inductive Content where
  | text (s : String)
  | flag (b : Bool)
  | number (n : Int64)
  /-- How many of something a statement has. -/
  | count (n : Nat)
  | function (f : CheckedFunction)
deriving DecidableEq, Repr

namespace Content

def text? : Content → Option String
  | .text s => some s
  | _ => none

def flag? : Content → Option Bool
  | .flag b => some b
  | _ => none

def number? : Content → Option Int64
  | .number n => some n
  | _ => none

def count? : Content → Option Nat
  | .count n => some n
  | _ => none

def function? : Content → Option CheckedFunction
  | .function f => some f
  | _ => none

end Content

/-- A result that may be there. -/
structure Slot where
  content : Option Content := none
deriving DecidableEq, Repr

namespace Slot

variable {α : Type}

def holding (c : Content) : Slot := ⟨some c⟩

def isEmpty (s : Slot) : Bool := s.content.isNone

/-- Says only whether something is held, as its kind need not be printable. -/
def describe (s : Slot) : String := if s.isEmpty then "StmtResult(empty)" else "StmtResult(..)"

/-- Looks at a content of the kind that `view` accepts. -/
def peek (s : Slot) (view : Content → Option α) : Option α := s.content.bind view

/-- Takes a content of the kind that `view` accepts; any other content stays. -/
def take (s : Slot) (view : Content → Option α) : Option α × Slot :=
  match s.peek view with
  | some a => (some a, {})
  | none => (none, s)

/-- The count in a slot; zero if it holds none. -/
def count (s : Slot) : Nat := (s.take Content.count?).1.getD 0

/-- The record of a checked function in a slot, if it holds one. -/
def function? (s : Slot) : Option CheckedFunction := (s.take Content.function?).1

end Slot

end TreeWalk
