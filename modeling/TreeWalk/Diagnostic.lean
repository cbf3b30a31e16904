import TreeWalk.Tree.Basic

/-! A problem in a program, located by a source line, with an optional second place. -/

namespace TreeWalk

/-- A second place that belongs to a problem. -/
structure Note where
  message : String
  line : Line
deriving DecidableEq, Repr

/-- A problem in a program. -/
structure Diagnostic where
  message : String
  line : Line
  note : Option Note := none
deriving DecidableEq, Repr

/-- A diagnostic as plain text, without a line break at its end. -/
def Diagnostic.text (d : Diagnostic) : String :=
  let first := "error[line " ++ toString d.line.toNat ++ "]: " ++ d.message
  match d.note with
  | none => first
  | some note => first ++ "\n  note[line " ++ toString note.line.toNat ++ "]: " ++ note.message

end TreeWalk
