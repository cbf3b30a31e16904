import Mathlib.Data.String.Basic
import Mathlib.Order.Compare
import Mathlib.Tactic.SplitIfs
import TreeWalk.Proofs.Folding.Constant
import TreeWalk.Proofs.Folding.Reference

/-! Folding agrees with the reference semantics in both directions. The operations on values are defined
exactly where a rule of the reference applies, and then have the same result. The folder looks at both
operands of every operator while the reference may leave out the right one; an expression is constant
exactly if the reference gives it a value under every interpretation and evaluates no variable,
assignment or call on the way. -/

namespace TreeWalk

namespace Value

/-! ### Integers -/

theorem checked_eq (n : Int) :
    checked n = if -2 ^ 63 ≤ n ∧ n < 2 ^ 63 then some (.integer (Int64.ofInt n)) else none := by
  have hrange : (Int64.minValue.toInt ≤ n ∧ n ≤ Int64.maxValue.toInt) ↔ -2 ^ 63 ≤ n ∧ n < 2 ^ 63 := by
    rw [Int64.toInt_minValue, Int64.toInt_maxValue]
    omega
  simp only [checked, hrange]

theorem checked_eq_some_iff {n : Int} {v : Value} :
    checked n = some v ↔ ∃ c : Int64, v = .integer c ∧ c.toInt = n := by
  rw [checked_eq]
  split_ifs with h
  · constructor
    · rintro ⟨⟩
      exact ⟨Int64.ofInt n, rfl, Int64.toInt_ofInt_of_le h.1 h.2⟩
    · rintro ⟨c, rfl, rfl⟩
      rw [Int64.ofInt_toInt]
  · constructor
    · rintro ⟨⟩
    · rintro ⟨c, rfl, rfl⟩
      exact absurd ⟨c.le_toInt, c.toInt_lt⟩ h

/-- Only one quotient does not fit sixty-four bits. -/
theorem checked_tdiv_isSome_iff {a b : Int64} (h : b.toInt ≠ 0) :
    (checked (a.toInt.tdiv b.toInt)).isSome ↔ ¬(a.toInt = -2 ^ 63 ∧ b.toInt = -1) := by
  have hl := a.le_toInt
  have hu := a.toInt_lt
  have hq : (a.toInt.tdiv b.toInt).natAbs = a.toInt.natAbs / b.toInt.natAbs :=
    Int.natAbs_tdiv a.toInt b.toInt
  have hle : a.toInt.natAbs / b.toInt.natAbs ≤ a.toInt.natAbs := Nat.div_le_self _ _
  constructor
  · rintro hs ⟨ha, hb⟩
    rw [ha, hb] at hs
    exact absurd hs (by decide)
  · intro hn
    rw [checked_eq]
    split_ifs with hr
    · rfl
    · exfalso
      -- The quotient is at most as large as the dividend, so it can only be `2 ^ 63` itself.
      have ha : a.toInt = -2 ^ 63 := by omega
      have hb : b.toInt.natAbs = 1 := by
        by_cases hb : 2 ≤ b.toInt.natAbs
        · have hhalf : a.toInt.natAbs / b.toInt.natAbs ≤ a.toInt.natAbs / 2 :=
            Nat.div_le_div_left hb (by decide)
          omega
        · omega
      have hb' : b.toInt = 1 ∨ b.toInt = -1 := by omega
      rcases hb' with hb' | hb'
      · rw [ha, hb'] at hr
        exact hr (by decide)
      · exact hn ⟨ha, hb'⟩

theorem integerOp_eq_some_iff {op : String} {a b : Int64} {v : Value} :
    integerOp op a.toInt b.toInt = some v ↔
      ∃ c : Int64, v = .integer c ∧ IntegerRule op a.toInt b.toInt c.toInt := by
  constructor
  · intro h
    unfold integerOp at h
    split at h
    · obtain ⟨c, rfl, hc⟩ := checked_eq_some_iff.1 h
      exact ⟨c, rfl, hc ▸ .add _ _⟩
    · obtain ⟨c, rfl, hc⟩ := checked_eq_some_iff.1 h
      exact ⟨c, rfl, hc ▸ .sub _ _⟩
    · obtain ⟨c, rfl, hc⟩ := checked_eq_some_iff.1 h
      exact ⟨c, rfl, hc ▸ .mul _ _⟩
    · split_ifs at h with h₀
      have hfit := (checked_tdiv_isSome_iff h₀).1 (by rw [h]; rfl)
      obtain ⟨c, rfl, hc⟩ := checked_eq_some_iff.1 h
      exact ⟨c, rfl, hc ▸ .div h₀ hfit⟩
    · split_ifs at h with h₀
      obtain ⟨q, hq, h⟩ := Option.bind_eq_some_iff.1 h
      have hfit := (checked_tdiv_isSome_iff h₀).1 (by rw [hq]; rfl)
      obtain ⟨c, rfl, hc⟩ := checked_eq_some_iff.1 h
      exact ⟨c, rfl, hc ▸ .rem h₀ hfit⟩
    · cases h
  · rintro ⟨c, rfl, h⟩
    generalize hc : c.toInt = n at h
    have hn : checked n = some (.integer c) := checked_eq_some_iff.2 ⟨c, rfl, hc⟩
    cases h with
    | add => exact hn
    | sub => exact hn
    | mul => exact hn
    | div h₀ _ => simpa [integerOp, h₀] using hn
    | rem h₀ hfit =>
      obtain ⟨q, hq⟩ := Option.isSome_iff_exists.1 ((checked_tdiv_isSome_iff h₀).2 hfit)
      simpa [integerOp, h₀, hq] using hn

/-! ### Doubles -/

open Float.Model in
theorem unpacked_compare_swap (x y : UnpackedFloat) :
    y.compare x = (x.compare y).map Ordering.swap := by
  cases x with
  | notANumber => cases y <;> rfl
  | infinity s => cases s <;> cases y with
    | infinity t => cases t <;> rfl
    | finite t _ _ _ => cases t <;> rfl
    | _ => rfl
  | zero s => cases y with
    | infinity t => cases t <;> rfl
    | finite t _ _ _ => cases t <;> rfl
    | _ => rfl
  | finite s m e h => cases s <;> cases y with
    | infinity t => cases t <;> rfl
    | finite t m' e' h' =>
      -- numbers of one sign are compared by their exponents, then by their mantissas
      have hswap : (compare e' e).then (compare m' m) = ((compare e e').then (compare m m')).swap := by
        rw [Ordering.swap_then, Int.compare_swap, Nat.compare_swap]
      cases t <;>
        first | rfl | exact congrArg some hswap | exact congrArg (fun o => some o.swap) hswap
    | _ => rfl

/-- The order of two doubles, if there is one, in the model of doubles. -/
def modelOrder (x y : Float) : Option Ordering := x.toModel.unpack.compare y.toModel.unpack

theorem double_lt_iff (x y : Float) : x < y ↔ modelOrder x y = some .lt := by
  change decide (x.toModel < y.toModel) = true ↔ _
  rw [decide_eq_true_iff]
  change (modelOrder x y == some .lt) = true ↔ _
  rw [beq_iff_eq]

theorem double_beq_iff (x y : Float) : (x == y) = true ↔ modelOrder x y = some .eq := by
  change (modelOrder x y == some .eq) = true ↔ _
  rw [beq_iff_eq]

theorem double_gt_iff (x y : Float) : y < x ↔ modelOrder x y = some .gt := by
  rw [double_lt_iff, modelOrder, unpacked_compare_swap, ← modelOrder, Option.map_eq_some_iff]
  constructor
  · rintro ⟨o, ho, hs⟩
    rwa [Ordering.swap_eq_iff_eq_swap.1 hs] at ho
  · intro h
    exact ⟨.gt, h, rfl⟩

theorem compareDoubles_eq (x y : Float) : compareDoubles x y = modelOrder x y := by
  unfold compareDoubles
  simp only [double_lt_iff x y, double_beq_iff x y, double_gt_iff x y]
  cases h : modelOrder x y with
  | none => simp
  | some o => cases o <;> simp

theorem doubleOp_eq_some_iff {op : String} {x y : Float} {v : Value} :
    doubleOp op x y = some v ↔ ∃ z, v = .double z ∧ DoubleRule op x y z := by
  constructor
  · intro h
    unfold doubleOp at h
    split at h
    · cases h; exact ⟨_, rfl, .add x y⟩
    · cases h; exact ⟨_, rfl, .sub x y⟩
    · cases h; exact ⟨_, rfl, .mul x y⟩
    · split_ifs at h with h₀
      cases h; exact ⟨_, rfl, .div (by simpa using h₀)⟩
    · split_ifs at h with h₀
      cases h; exact ⟨_, rfl, .rem (by simpa using h₀)⟩
    · cases h
  · rintro ⟨z, rfl, h⟩
    cases h with
    | add => rfl
    | sub => rfl
    | mul => rfl
    | div h₀ => simp [doubleOp, h₀]
    | rem h₀ => simp [doubleOp, h₀]

/-! ### Operators -/

theorem unary_eq_some_iff {op : String} {a v : Value} :
    unary op a = some v ↔ UnaryRule op a v := by
  constructor
  · intro h
    unfold unary at h
    split at h
    · cases a with
      | integer n =>
        obtain ⟨c, rfl, hc⟩ := checked_eq_some_iff.1 h
        exact .negate hc
      | double x => cases h; exact .negateDouble x
      | _ => cases h
    · cases a with
      | boolean b => cases h; exact .complement b
      | _ => cases h
    · cases h
  · rintro (⟨h⟩ | ⟨x⟩ | ⟨b⟩)
    · exact checked_eq_some_iff.2 ⟨_, rfl, h⟩
    · rfl
    · rfl

theorem rule_of_arithmetic {op : String} {a b v : Value} (h : arithmetic op a b = some v) :
    BinaryRule op a b v := by
  unfold arithmetic at h
  split at h
  · obtain ⟨c, rfl, hc⟩ := integerOp_eq_some_iff.1 h
    exact .integer hc
  · obtain ⟨z, rfl, hz⟩ := doubleOp_eq_some_iff.1 h
    exact .double hz
  · split_ifs at h with hop
    cases h
    subst hop
    exact .concat _ _
  · cases h

theorem binary_of_integerRule {op : String} {m n k : Int} (h : IntegerRule op m n k) (a b : Value) :
    binary op a b = arithmetic op a b := by
  cases h <;> rfl

theorem binary_of_doubleRule {op : String} {x y z : Float} (h : DoubleRule op x y z) (a b : Value) :
    binary op a b = arithmetic op a b := by
  cases h <;> rfl

theorem equal_eq_some_iff {a b : Value} {r : Bool} : equal a b = some r ↔ EqualRule a b r := by
  constructor
  · intro h
    unfold equal at h
    split_ifs at h with ht
    cases h
    cases a <;> cases b <;> cases ht
    · rw [same, beq_eq_decide]; exact .integer _ _
    · exact .double _ _
    · rw [same, beq_eq_decide]; exact .boolean _ _
    · rw [same, beq_eq_decide]; exact .string _ _
    · exact .null
  · intro h
    cases h with
    | integer m n => simp only [equal, type, same, beq_eq_decide, if_true]
    | double x y => rfl
    | boolean b c => simp only [equal, type, same, beq_eq_decide, if_true]
    | string s t => simp only [equal, type, same, beq_eq_decide, if_true]
    | null => rfl

theorem compareStrings_eq_some_iff {s t : String} {o : Ordering} :
    compareOfLessAndEq s t = o ↔ OrderRule (.string s) (.string t) o := by
  unfold compareOfLessAndEq
  constructor
  · rintro rfl
    split_ifs with hlt heq
    · exact .stringLess hlt
    · exact .stringSame heq
    · exact .stringMore (lt_of_le_of_ne (not_lt.1 hlt) (Ne.symm heq))
  · intro h
    cases h with
    | stringLess h => rw [if_pos h]
    | stringSame h => subst h; simp
    | stringMore h => rw [if_neg (not_lt_of_gt h), if_neg (ne_of_gt h)]

theorem order_eq_some_iff {a b : Value} {o : Ordering} : order a b = some o ↔ OrderRule a b o := by
  constructor
  · intro h
    unfold order at h
    split at h
    · next m n =>
      cases h
      cases hc : compare m.toInt n.toInt with
      | lt => exact .integerLess (compare_lt_iff_lt.1 hc)
      | eq => exact .integerSame (compare_eq_iff_eq.1 hc)
      | gt => exact .integerMore (compare_gt_iff_gt.1 hc)
    · next x y =>
      rw [compareDoubles_eq] at h
      cases o with
      | lt => exact .doubleLess ((double_lt_iff x y).2 h)
      | eq => exact .doubleSame ((double_beq_iff x y).2 h)
      | gt => exact .doubleMore ((double_gt_iff x y).2 h)
    · exact compareStrings_eq_some_iff.1 (Option.some.inj h)
    · cases h
  · intro h
    cases h with
    | integerLess h => exact congrArg some (compare_lt_iff_lt.2 h)
    | integerSame h => exact congrArg some (compare_eq_iff_eq.2 h)
    | integerMore h => exact congrArg some (compare_gt_iff_gt.2 h)
    | doubleLess h => exact (compareDoubles_eq _ _).trans ((double_lt_iff _ _).1 h)
    | doubleSame h => exact (compareDoubles_eq _ _).trans ((double_beq_iff _ _).1 h)
    | doubleMore h => exact (compareDoubles_eq _ _).trans ((double_gt_iff _ _).1 h)
    | stringLess h => exact congrArg some (compareStrings_eq_some_iff.2 (.stringLess h))
    | stringSame h => exact congrArg some (compareStrings_eq_some_iff.2 (.stringSame h))
    | stringMore h => exact congrArg some (compareStrings_eq_some_iff.2 (.stringMore h))

theorem binary_eq_some_iff {op : String} {a b v : Value} :
    binary op a b = some v ↔ BinaryRule op a b v := by
  constructor
  · intro h
    unfold binary at h
    split at h
    · obtain ⟨r, hr, rfl⟩ := Option.map_eq_some_iff.1 h
      exact .equal (equal_eq_some_iff.1 hr)
    · obtain ⟨r, hr, rfl⟩ := Option.map_eq_some_iff.1 h
      exact .unequal (equal_eq_some_iff.1 hr)
    · obtain ⟨o, ho, rfl⟩ := Option.map_eq_some_iff.1 h
      have hr := BinaryRule.less (order_eq_some_iff.1 ho)
      cases o <;> exact hr
    · obtain ⟨o, ho, rfl⟩ := Option.map_eq_some_iff.1 h
      have hr := BinaryRule.atMost (order_eq_some_iff.1 ho)
      cases o <;> exact hr
    · obtain ⟨o, ho, rfl⟩ := Option.map_eq_some_iff.1 h
      have hr := BinaryRule.more (order_eq_some_iff.1 ho)
      cases o <;> exact hr
    · obtain ⟨o, ho, rfl⟩ := Option.map_eq_some_iff.1 h
      have hr := BinaryRule.atLeast (order_eq_some_iff.1 ho)
      cases o <;> exact hr
    · exact rule_of_arithmetic h
  · intro h
    cases h with
    | integer h =>
      rw [binary_of_integerRule h]
      exact integerOp_eq_some_iff.2 ⟨_, rfl, h⟩
    | double h =>
      rw [binary_of_doubleRule h]
      exact doubleOp_eq_some_iff.2 ⟨_, rfl, h⟩
    | concat s t => rfl
    | equal h => simp [binary, equal_eq_some_iff.2 h]
    | unequal h => simp [binary, equal_eq_some_iff.2 h]
    | @less a b o h => simp only [binary, order_eq_some_iff.2 h]; cases o <;> rfl
    | @atMost a b o h => simp only [binary, order_eq_some_iff.2 h]; cases o <;> rfl
    | @more a b o h => simp only [binary, order_eq_some_iff.2 h]; cases o <;> rfl
    | @atLeast a b o h => simp only [binary, order_eq_some_iff.2 h]; cases o <;> rfl

/-- A logical operator needs its right operand only if the left one does not settle it. -/
theorem logical_eq_some_iff {op : String} {a b : Option Value} {v : Value} :
    logical op a b = some v ↔ ∃ s, settledBy op = some s ∧
      (a = some (.boolean s) ∧ v = .boolean s ∨
        ∃ c, a = some (.boolean !s) ∧ b = some (.boolean c) ∧ v = .boolean c) := by
  constructor
  · intro h
    unfold logical at h
    split at h
    · cases h; exact ⟨false, rfl, .inl ⟨rfl, rfl⟩⟩
    · cases h; exact ⟨true, rfl, .inl ⟨rfl, rfl⟩⟩
    · next c => cases h; exact ⟨false, rfl, .inr ⟨c, rfl, rfl, rfl⟩⟩
    · next c => cases h; exact ⟨true, rfl, .inr ⟨c, rfl, rfl, rfl⟩⟩
    · cases h
  · rintro ⟨s, hs, h⟩
    unfold settledBy at hs
    split_ifs at hs with hand hor
    · cases hs
      rcases h with ⟨rfl, rfl⟩ | ⟨c, rfl, rfl, rfl⟩ <;> rw [hand] <;> rfl
    · cases hs
      rcases h with ⟨rfl, rfl⟩ | ⟨c, rfl, rfl, rfl⟩ <;> rw [hor] <;> rfl

end Value

/-! ### Expressions -/

namespace Folder

variable {ω : Type} {meaning : Interpretation ω}

/-- A constant is what the reference evaluates to in any world, which it leaves as it is. -/
theorem evaluates_of_constant {e : Expr} {v : Value} (h : constant e = some v)
    (meaning : Interpretation ω) (w : ω) : Evaluates meaning e w v w [] := by
  induction e using Expr.induct generalizing v with
  | literal u l => cases h; exact .literal
  | grouping e l ih => exact .grouping (ih h)
  | unary op e l ih =>
    obtain ⟨a, ha, hv⟩ := Option.bind_eq_some_iff.1 h
    exact .unary (ih ha) (Value.unary_eq_some_iff.1 hv)
  | binary a op b l iha ihb =>
    obtain ⟨x, hx, h⟩ := Option.bind_eq_some_iff.1 h
    obtain ⟨y, hy, hv⟩ := Option.bind_eq_some_iff.1 h
    exact .binary (iha hx) (ihb hy) (Value.binary_eq_some_iff.1 hv)
  | logical a op b l iha ihb =>
    obtain ⟨s, hs, ⟨ha, rfl⟩ | ⟨c, ha, hb, rfl⟩⟩ := Value.logical_eq_some_iff.1 h
    · exact .short hs (iha ha)
    · exact .long hs (iha ha) (ihb hb)
  | access x l => cases h
  | assign x e l ih => cases h
  | call f es l ih => cases h

/-- What is evaluated without any variable, assignment or call is a constant. -/
theorem constant_of_evaluates {e : Expr} {w w' : ω} {v : Value} {reached : List Expr}
    (h : Evaluates meaning e w v w' reached) (hr : reached = []) : constant e = some v := by
  induction h with
  | literal => rfl
  | grouping _ ih => exact ih hr
  | unary _ hv ih => exact Option.bind_eq_some_iff.2 ⟨_, ih hr, Value.unary_eq_some_iff.2 hv⟩
  | binary _ _ hv iha ihb =>
    obtain ⟨hra, hrb⟩ := List.append_eq_nil_iff.1 hr
    simp only [constant, iha hra, ihb hrb, Option.bind_some]
    exact Value.binary_eq_some_iff.2 hv
  | short hs _ ih => exact Value.logical_eq_some_iff.2 ⟨_, hs, .inl ⟨ih hr, rfl⟩⟩
  | long hs _ _ iha ihb =>
    obtain ⟨hra, hrb⟩ := List.append_eq_nil_iff.1 hr
    exact Value.logical_eq_some_iff.2 ⟨_, hs, .inr ⟨_, iha hra, ihb hrb, rfl⟩⟩
  | reach _ _ => cases hr

end Folder

/-- An expression folds to a value exactly if, whatever variables, assignments and calls mean, it
evaluates to that value without reaching any of them. -/
theorem Expr.fold_eq_some_iff_evaluates (e : Expr) (v : Value) :
    e.fold = some v ↔
      ∀ (ω : Type) (meaning : Interpretation ω) (w : ω), ∃ w', Evaluates meaning e w v w' [] := by
  rw [fold_eq_constant]
  constructor
  · intro h ω meaning w
    exact ⟨w, Folder.evaluates_of_constant h meaning w⟩
  · intro h
    obtain ⟨w', hw⟩ := h Unit (fun _ _ => none) ()
    exact Folder.constant_of_evaluates hw rfl

end TreeWalk
