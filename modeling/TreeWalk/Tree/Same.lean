import TreeWalk.Tree.Basic

/-! Equality of trees as a program decides it, say to compare a tree with the one loaded back: all fields
count, lines included, and doubles compare as numbers. So it is neither finer nor coarser than equality of
terms: a tree with a double that is no number differs from itself, and the two zeros are the same. -/

namespace TreeWalk

mutual

def Expr.same : Expr → Expr → Bool
  | .literal v l, .literal w m => v.same w && l == m
  | .grouping e l, .grouping f m => e.same f && l == m
  | .unary o e l, .unary p f m => o == p && e.same f && l == m
  | .binary a o b l, .binary c p d m => a.same c && o == p && b.same d && l == m
  | .logical a o b l, .logical c p d m => a.same c && o == p && b.same d && l == m
  | .access x l, .access y m => x == y && l == m
  | .assign x e l, .assign y f m => x == y && e.same f && l == m
  | .call x es l, .call y fs m => x == y && Expr.sameList es fs && l == m
  | _, _ => false

def Expr.sameList : List Expr → List Expr → Bool
  | [], [] => true
  | e :: es, f :: fs => e.same f && Expr.sameList es fs
  | _, _ => false

end

def Expr.sameOption : Option Expr → Option Expr → Bool
  | none, none => true
  | some e, some f => e.same f
  | _, _ => false

mutual

def Stmt.same : Stmt → Stmt → Bool
  | .function x t ps body k l, .function y u qs body' k' m =>
    x == y && t == u && ps == qs && Stmt.sameList body body' && k == k' && l == m
  | .block ss l, .block ts m => Stmt.sameList ss ts && l == m
  | .expression e l, .expression f m => e.same f && l == m
  | .branch c s o l, .branch c' s' o' m => c.same c' && s.same s' && Stmt.sameOption o o' && l == m
  | .print e l, .print f m => e.same f && l == m
  | .declare x t e l, .declare y u f m => x == y && t == u && Expr.sameOption e f && l == m
  | .loop c body k l, .loop c' body' k' m => c.same c' && Stmt.sameList body body' && k == k' && l == m
  | .ret e l, .ret f m => Expr.sameOption e f && l == m
  | _, _ => false

def Stmt.sameList : List Stmt → List Stmt → Bool
  | [], [] => true
  | s :: ss, t :: ts => s.same t && Stmt.sameList ss ts
  | _, _ => false

def Stmt.sameOption : Option Stmt → Option Stmt → Bool
  | none, none => true
  | some s, some t => s.same t
  | _, _ => false

end

/-- Whether two programs are the same tree. -/
def Program.same (p q : Program) : Bool := Stmt.sameList p q

end TreeWalk
