/-! Nested scopes of bindings. The outermost scope is always there. A name is bound in the innermost
scope and keeps its first binding there; it is looked up from the innermost scope outward. -/

namespace TreeWalk

/-- The bindings of one scope, the latest first. -/
abbrev Scope (α : Type) := List (String × α)

/-- A stack of scopes that is never empty. -/
structure Scopes (α : Type) where
  innermost : Scope α := []
  enclosing : List (Scope α) := []
deriving DecidableEq, Repr

namespace Scopes

variable {α : Type}

/-- All scopes, the innermost first. -/
def toList (s : Scopes α) : List (Scope α) := s.innermost :: s.enclosing

def depth (s : Scopes α) : Nat := s.toList.length

def push (s : Scopes α) : Scopes α := ⟨[], s.toList⟩

/-- Closes the innermost scope and gives its bindings; the outermost scope stays open. -/
def pop (s : Scopes α) : Option (Scope α) × Scopes α :=
  match s.enclosing with
  | [] => (none, s)
  | outer :: rest => (some s.innermost, ⟨outer, rest⟩)

/-- Binds a name in the innermost scope; a binding already there is kept and given back. -/
def declare (s : Scopes α) (name : String) (value : α) : Except α Unit × Scopes α :=
  match s.innermost.lookup name with
  | some first => (.error first, s)
  | none => (.ok (), { s with innermost := (name, value) :: s.innermost })

def lookup (s : Scopes α) (name : String) : Option α := s.toList.findSome? (·.lookup name)

def contains (s : Scopes α) (name : String) : Bool := (s.lookup name).isSome

end Scopes

end TreeWalk
