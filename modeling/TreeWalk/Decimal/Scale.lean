/-! Reading a decimal `significand * 10 ^ exponent` as a double: the significand is rounded once,
and one multiplication or division by a power of ten rounds again. The result is therefore not
always the nearest double. -/

namespace TreeWalk.Decimal

/-- The double nearest to `10 ^ k`. -/
def powerOfTen (k : Nat) : Float := Float.ofScientific 1 false k

/-- The largest `k` for which `10 ^ k` is a finite double. -/
def maxPower : Nat := 308

/-- Divides by `10 ^ k`, in steps of at most `10 ^ 308`, until nothing is left. -/
def divideByPower (f : Float) (k : Nat) : Float :=
  if k ≤ maxPower then f / powerOfTen k
  else if f == 0 then f
  else divideByPower (f / powerOfTen maxPower) (k - maxPower)
termination_by k
decreasing_by simp_all [maxPower]; omega

/-- Multiplies by `10 ^ k`; nothing if the result is no finite double. -/
def multiplyByPower (f : Float) (k : Nat) : Option Float :=
  if k ≤ maxPower then
    let r := f * powerOfTen k
    if r.isInf then none else some r
  else if f == 0 then some f
  else none

/-- The double read for `significand * 10 ^ exponent`; nothing if it is out of range. -/
def ofParts (significand : Nat) (exponent : Int) : Option Float :=
  let f := significand.toUInt64.toFloat
  if 0 ≤ exponent then multiplyByPower f exponent.toNat
  else some (divideByPower f (-exponent).toNat)

end TreeWalk.Decimal
