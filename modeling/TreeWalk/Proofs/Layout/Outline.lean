import TreeWalk.Proofs.Source.Reader

/-! What the text of a statement says. Its outline is the tree without lines, with skeletons in place of
expressions. A branch that is not a block is printed without braces, so an `else` after a branch that
ends with an `if` of its own goes to that `if` when the layout is not looked at. An outline is settled if
this moves no `else`: every outline can be settled by giving each `else` to the last `if` before it that
has none. -/

namespace TreeWalk

open Source

/-! ### Well-formed programs -/

/-- The words that start a part of a statement. -/
def keywords : List String := ["if", "else", "while", "func", "var", "print", "return"]

/-- An identifier that is not a keyword. -/
def isName (x : String) : Bool := isIdentifier x && !keywords.contains x

mutual

/-- The variables and functions that an expression names, in source order. -/
def Expr.names : Expr → List String
  | .literal _ _ => []
  | .grouping e _ | .unary _ e _ => e.names
  | .binary a _ b _ | .logical a _ b _ => a.names ++ b.names
  | .access x _ => [x]
  | .assign x e _ => x :: e.names
  | .call f es _ => f :: Expr.listNames es

def Expr.listNames : List Expr → List String
  | [] => []
  | e :: es => e.names ++ Expr.listNames es

end

/-- A well-formed expression that names no keyword. -/
def Expr.isPlain (e : Expr) : Bool := e.isWellFormed && e.names.all (!keywords.contains ·)

theorem Expr.isPlain_iff (e : Expr) :
    e.isPlain ↔ e.isWellFormed ∧ ∀ x ∈ e.names, x ∉ keywords := by
  simp [isPlain]

mutual

/-- The names are identifiers other than keywords, the operators are known and no literal is a double. -/
def Stmt.isWellFormed : Stmt → Bool
  | .function x _ ps body _ _ => isName x && ps.all (isName ·.name) && Stmt.areWellFormed body
  | .block ss _ => Stmt.areWellFormed ss
  | .expression e _ | .print e _ => e.isPlain
  | .branch c s o _ => c.isPlain && s.isWellFormed && Stmt.optionIsWellFormed o
  | .declare x _ e _ => isName x && e.all Expr.isPlain
  | .loop c body _ _ => c.isPlain && Stmt.areWellFormed body
  | .ret e _ => e.all Expr.isPlain

def Stmt.areWellFormed : List Stmt → Bool
  | [] => true
  | s :: ss => s.isWellFormed && Stmt.areWellFormed ss

def Stmt.optionIsWellFormed : Option Stmt → Bool
  | none => true
  | some s => s.isWellFormed

end

theorem Stmt.areWellFormed_iff (ss : List Stmt) : Stmt.areWellFormed ss ↔ ∀ s ∈ ss, s.isWellFormed := by
  induction ss with
  | nil => simp [Stmt.areWellFormed]
  | cons s ss ih => simp [Stmt.areWellFormed, ih]

theorem Stmt.optionIsWellFormed_iff (o : Option Stmt) :
    Stmt.optionIsWellFormed o ↔ ∀ s ∈ o, s.isWellFormed := by
  cases o <;> simp [Stmt.optionIsWellFormed]

/-- Whether all statements of a program are well formed. -/
def Program.isWellFormed (u : Program) : Bool := Stmt.areWellFormed u

/-! ### Outlines -/

/-- A statement without lines, its expressions being skeletons. -/
inductive Outline where
  | function (name : String) (type : Ty) (parameters : List (String × Ty)) (body : List Outline)
  | block (statements : List Outline)
  | expression (e : Skeleton)
  | branch (condition : Skeleton) (thenBranch : Outline) (elseBranch : Option Outline)
  | print (e : Skeleton)
  | declare (name : String) (type : Ty) (initializer : Option Skeleton)
  | loop (condition : Skeleton) (body : List Outline)
  | ret (value : Option Skeleton)

def Parameter.outline (q : Parameter) : String × Ty := (q.name, q.type)

mutual

/-- Drops lines, groupings and the difference between a negative literal and a negation. -/
def Stmt.outline : Stmt → Outline
  | .function x t ps body _ _ => .function x t (ps.map Parameter.outline) (Stmt.outlines body)
  | .block ss _ => .block (Stmt.outlines ss)
  | .expression e _ => .expression e.skeleton
  | .branch c s o _ => .branch c.skeleton s.outline (Stmt.optionOutline o)
  | .print e _ => .print e.skeleton
  | .declare x t e _ => .declare x t (e.map Expr.skeleton)
  | .loop c body _ _ => .loop c.skeleton (Stmt.outlines body)
  | .ret e _ => .ret (e.map Expr.skeleton)

def Stmt.outlines : List Stmt → List Outline
  | [] => []
  | s :: ss => s.outline :: Stmt.outlines ss

def Stmt.optionOutline : Option Stmt → Option Outline
  | none => none
  | some s => some s.outline

end

/-- The outlines of the statements of a program. -/
def Program.outline (u : Program) : List Outline := Stmt.outlines u

namespace Outline

/-! ### Where an `else` goes -/

/-- Whether the outline ends with an `if` that has no `else`. -/
def isOpen : Outline → Bool
  | .branch _ _ none => true
  | .branch _ _ (some e) => e.isOpen
  | _ => false

/-- Induction along the statements that an outline ends with. -/
@[elab_as_elim]
theorem endInduct {motive : Outline → Prop}
    (lone : ∀ c t, motive t → motive (.branch c t none))
    (both : ∀ c t e, motive e → motive (.branch c t (some e)))
    (other : ∀ t, (∀ c s e, t ≠ .branch c s e) → motive t) : (t : Outline) → motive t
  | .branch c t none => lone c t (endInduct lone both other t)
  | .branch c t (some e) => both c t e (endInduct lone both other e)
  | .function x t ps body => other (.function x t ps body) nofun
  | .block ss => other (.block ss) nofun
  | .expression e => other (.expression e) nofun
  | .print e => other (.print e) nofun
  | .declare x t e => other (.declare x t e) nofun
  | .loop c body => other (.loop c body) nofun
  | .ret e => other (.ret e) nofun

/-- Gives an `else` to the last `if` that has none. -/
def attach (e : Outline) : Outline → Outline
  | .branch c t none => if t.isOpen then .branch c (attach e t) none else .branch c t (some e)
  | .branch c t (some f) => .branch c t (some (attach e f))
  | t => t

/-- An `if` with a branch and what is printed after the `else` that follows it. -/
def withElse (c : Skeleton) (t e : Outline) : Outline := attach e (.branch c t none)

mutual

/-- Gives every `else` to the last `if` before it that has none. -/
def settled : Outline → Outline
  | .function x t ps body => .function x t ps (settledList body)
  | .block ss => .block (settledList ss)
  | .expression e => .expression e
  | .branch c t none => .branch c t.settled none
  | .branch c t (some e) => withElse c t.settled e.settled
  | .print e => .print e
  | .declare x t e => .declare x t e
  | .loop c body => .loop c (settledList body)
  | .ret e => .ret e

def settledList : List Outline → List Outline
  | [] => []
  | o :: os => o.settled :: settledList os

end

mutual

/-- No branch before an `else` ends with an `if` that has none. -/
def isSettled : Outline → Bool
  | .function _ _ _ body => areSettled body
  | .block ss => areSettled ss
  | .branch _ t none => t.isSettled
  | .branch _ t (some e) => !t.isOpen && t.isSettled && e.isSettled
  | .loop _ body => areSettled body
  | .expression _ | .print _ | .declare _ _ _ | .ret _ => true

def areSettled : List Outline → Bool
  | [] => true
  | o :: os => o.isSettled && areSettled os

end

mutual

theorem settled_of_isSettled : (o : Outline) → o.isSettled → o.settled = o
  | .function x t ps body, h => by rw [settled, settledList_of_areSettled body h]
  | .block ss, h => by rw [settled, settledList_of_areSettled ss h]
  | .expression e, _ => by rw [settled]
  | .branch c t none, h => by rw [settled, settled_of_isSettled t h]
  | .branch c t (some e), h => by
    simp only [isSettled, Bool.and_eq_true, Bool.not_eq_true'] at h
    rw [settled, settled_of_isSettled t h.1.2, settled_of_isSettled e h.2, withElse, attach, if_neg]
    simp [h.1.1]
  | .print e, _ => by rw [settled]
  | .declare x t e, _ => by rw [settled]
  | .loop c body, h => by rw [settled, settledList_of_areSettled body h]
  | .ret e, _ => by rw [settled]

theorem settledList_of_areSettled : (os : List Outline) → areSettled os → settledList os = os
  | [], _ => by rw [settledList]
  | o :: os, h => by
    simp only [areSettled, Bool.and_eq_true] at h
    rw [settledList, settled_of_isSettled o h.1, settledList_of_areSettled os h.2]

end

end Outline

end TreeWalk
