import TreeWalk.Decimal.Shortest

/-! The remainder of the division of two doubles with a whole quotient, cut off toward zero. It is
exact and takes the sign of the dividend. -/

namespace TreeWalk.Decimal

/-- The remainder of `x` by `y`, both brought to the smaller power of two. -/
def Dyadic.remainder (x y : Dyadic) : Dyadic :=
  let q := min x.q y.q
  ⟨(x.m * Nat.pow 2 (x.q - q).toNat) % (y.m * Nat.pow 2 (y.q - q).toNat), q, false⟩

def Dyadic.toFloat (x : Dyadic) : Float := x.m.toUInt64.toFloat.scaleB x.q

/-- The remainder of the division of doubles. -/
def remainder (a b : Float) : Float :=
  if a.isNaN || b.isNaN || a.isInf || b == 0 then 0 / 0
  else if b.isInf then a
  else
    let r := ((Dyadic.ofBits a.toBits).remainder (Dyadic.ofBits b.toBits)).toFloat
    if Nat.pow 2 63 ≤ a.toBits.toNat then -r else r

end TreeWalk.Decimal
