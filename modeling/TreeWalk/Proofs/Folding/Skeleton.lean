import TreeWalk.Proofs.Folding.Agreement
import TreeWalk.Proofs.Source.Unambiguous

/-! The text of an expression determines its value. The value of an expression depends on its skeleton
only: groupings hand their value on, and a negative literal has the value of the negated positive one. The
one number that has a value with a minus sign only is the magnitude of the least integer. No literal is
that number, so a sign before a number in a skeleton can be taken as part of the number. -/

namespace TreeWalk

/-- The value of an operator before an operand with the value `v`. A minus sign before a number makes one
integer with it. -/
def Skeleton.signed (op : String) (v : Option Value) : Skeleton → Option Value
  | .number n => if op = "-" then Value.checked (-n) else v.bind (Value.unary op)
  | _ => v.bind (Value.unary op)

/-- The value of a skeleton, if it is constant. -/
def Skeleton.constant : Skeleton → Option Value
  | .number n => Value.checked n
  | .double x => some (.double x)
  | .boolean b => some (.boolean b)
  | .string s => some (.string s)
  | .null => some .null
  | .unary op t => t.signed op t.constant
  | .binary a op b => a.constant.bind fun x => b.constant.bind fun y => Value.binary op x y
  | .logical a op b => Value.logical op a.constant b.constant
  | .access _ | .assign _ _ | .call _ _ => none

open Folder (constant)

theorem Value.checked_toInt (n : Int64) : Value.checked n.toInt = some (.integer n) :=
  Value.checked_eq_some_iff.2 ⟨n, rfl, rfl⟩

theorem Value.constant_skeleton (v : Value) : v.skeleton.constant = some v := by
  cases v with
  | integer n =>
    by_cases hneg : n.toInt < 0
    · have habs : -((n.toInt.natAbs : Nat) : Int) = n.toInt := by omega
      rw [Value.skeleton, if_pos hneg, Skeleton.constant, Skeleton.signed, if_pos rfl, habs, checked_toInt]
    · have hnat : ((n.toInt.toNat : Nat) : Int) = n.toInt := by omega
      rw [Value.skeleton, if_neg hneg, Skeleton.constant, hnat, checked_toInt]
  | double x => rfl
  | boolean b => rfl
  | string s => rfl
  | null => rfl

namespace Expr

/-- A number in a skeleton is a literal, so it is an integer of sixty-four bits. -/
theorem exists_of_skeleton_eq_number {e : Expr} {n : Nat} (h : e.skeleton = .number n) :
    ∃ c : Int64, c.toInt = n := by
  induction e using Expr.induct with
  | literal v l =>
    cases v with
    | integer c =>
      by_cases hneg : c.toInt < 0
      · simp [skeleton, Value.skeleton, hneg] at h
      · simp only [skeleton, Value.skeleton, hneg, if_false, Skeleton.number.injEq] at h
        refine ⟨c, ?_⟩
        omega
    | _ => simp [skeleton, Value.skeleton] at h
  | grouping e l ih => exact ih h
  | _ => simp [skeleton] at h

/-- The sign of a number can be taken as an operator, as the number has a value without it. -/
theorem signed_skeleton (op : String) (e : Expr) :
    e.skeleton.signed op e.skeleton.constant = e.skeleton.constant.bind (Value.unary op) := by
  cases hs : e.skeleton with
  | number n =>
    obtain ⟨c, hc⟩ := exists_of_skeleton_eq_number hs
    by_cases hop : op = "-"
    · rw [Skeleton.signed, if_pos hop, Skeleton.constant, ← hc, Value.checked_toInt, hop]
      rfl
    · rw [Skeleton.signed, if_neg hop]
  | _ => rfl

/-- The value of an expression is that of its skeleton. -/
theorem constant_eq_skeleton (e : Expr) : constant e = e.skeleton.constant := by
  induction e using Expr.induct with
  | literal v l => exact v.constant_skeleton.symm
  | grouping e l ih => exact ih
  | unary op e l ih => rw [constant, skeleton, Skeleton.constant, signed_skeleton, ih]
  | binary a op b l iha ihb => rw [constant, skeleton, Skeleton.constant, iha, ihb]
  | logical a op b l iha ihb => rw [constant, skeleton, Skeleton.constant, iha, ihb]
  | access x l => rfl
  | assign x e l ih => rfl
  | call f es l ih => rfl

/-- Well-formed expressions with the same text fold to the same value, or both to none. -/
theorem fold_eq_of_text_eq (e₁ e₂ : Expr) (h₁ : e₁.isWellFormed) (h₂ : e₂.isWellFormed)
    (h : e₁.text = e₂.text) : e₁.fold = e₂.fold := by
  have hs : some e₁.skeleton = some e₂.skeleton := by
    rw [← read_scan_text e₁ h₁, ← read_scan_text e₂ h₂, h]
  rw [fold_eq_constant, fold_eq_constant, constant_eq_skeleton, constant_eq_skeleton, Option.some.inj hs]

/-- The least integer is a literal. The right operand is a negative literal less two in a grouping, and
the same with a negated literal in the parentheses that its place requires. -/
theorem fold_eq_least_integer :
    let least : Expr := .literal (.integer Int64.minValue) 1
    let e₁ : Expr := .binary least "%" (.grouping (.binary (.literal (.integer (-3)) 2) "-"
      (.literal (.integer 2) 2) 2) 2) 1
    let e₂ : Expr := .binary least "%" (.binary (.unary "-" (.literal (.integer 3) 4) 4) "-"
      (.literal (.integer 2) 4) 4) 3
    e₁.isWellFormed ∧ e₂.isWellFormed ∧ e₁.text = e₂.text ∧ e₁.fold = some (.integer (-3)) ∧
      e₁.fold = e₂.fold := by
  intro least e₁ e₂
  have h₁ : e₁.isWellFormed := by decide
  have h₂ : e₂.isWellFormed := by decide
  have h : e₁.text = e₂.text := by decide
  exact ⟨h₁, h₂, h, rfl, fold_eq_of_text_eq e₁ e₂ h₁ h₂ h⟩

end Expr

end TreeWalk
