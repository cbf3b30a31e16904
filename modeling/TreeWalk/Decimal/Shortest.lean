/-! The fewest decimal digits that name a double. A finite double other than zero is a dyadic
number `m * 2 ^ q`; every real closer to it than to its neighbours rounds to it, the two ends of
that interval included when `m` is even. For one digit, two digits and so on up to seventeen, the
two multiples of the power of ten next to the number are tried, in exact arithmetic, and the first
power of ten with a multiple inside the interval gives the digits. -/

namespace TreeWalk.Decimal

/-- A positive number `m * 2 ^ q`. It is `narrow` when the gap to the next smaller double is half
the gap to the next larger one, that is at a power of two. -/
structure Dyadic where
  m : Nat
  q : Int
  narrow : Bool

/-- The number `significand * 10 ^ exponent`. -/
structure Digits where
  significand : Nat
  exponent : Int

/-- Which of two equally near decimals is taken. -/
inductive Tie where
  | up
  | even

/-- The magnitude of a finite double, from its bits. -/
def Dyadic.ofBits (bits : UInt64) : Dyadic :=
  let fraction : Nat := bits.toNat % Nat.pow 2 52
  let field : Nat := bits.toNat / Nat.pow 2 52 % Nat.pow 2 11
  if field = 0 then ⟨fraction, -1074, false⟩
  else ⟨Nat.pow 2 52 + fraction, (field : Nat) - (1075 : Int), fraction = 0 && 1 < field⟩

/-- Compares `a * 10 ^ g` with `b * 2 ^ p`. -/
def compareScaled (a : Nat) (g : Int) (b : Nat) (p : Int) : Ordering :=
  compare (a * Nat.pow 10 g.toNat * Nat.pow 2 (-p).toNat) (b * Nat.pow 2 p.toNat * Nat.pow 10 (-g).toNat)

namespace Dyadic

/-- Whether `a * 10 ^ g` rounds to the number. -/
def admits (x : Dyadic) (a : Nat) (g : Int) : Bool :=
  let low := compareScaled a g (4 * x.m - if x.narrow then 1 else 2) (x.q - 2)
  let high := compareScaled a g (4 * x.m + 2) (x.q - 2)
  if x.m % 2 = 0 then low.isGE && high.isLE else low.isGT && high.isLT

/-- The integer part of `x / 10 ^ g`. -/
def floorAt (x : Dyadic) (g : Int) : Nat :=
  (x.m * Nat.pow 2 x.q.toNat * Nat.pow 10 (-g).toNat) / (Nat.pow 2 (-x.q).toNat * Nat.pow 10 g.toNat)

/-- The `k` with `10 ^ (k - 1) ≤ x < 10 ^ k`. No positive double is below `10 ^ (-343)`. -/
def magnitude (x : Dyadic) : Int :=
  (Nat.toDigits 10 (x.floorAt (-343))).length - 343

/-- How `x` lies between `a * 10 ^ g` and `(a + 1) * 10 ^ g`: against their middle. -/
def againstMiddle (x : Dyadic) (a : Nat) (g : Int) : Ordering :=
  (compareScaled (2 * a + 1) g (2 * x.m) x.q).swap

/-- The multiple of `10 ^ g` that names `x`, if one does: of two, the nearer. -/
def onGrid (x : Dyadic) (tie : Tie) (g : Int) : Option Digits :=
  let a := x.floorAt g
  match x.admits a g, x.admits (a + 1) g with
  | false, false => none
  | true, false => some ⟨a, g⟩
  | false, true => some ⟨a + 1, g⟩
  | true, true =>
    match x.againstMiddle a g, tie with
    | .lt, _ => some ⟨a, g⟩
    | .gt, _ => some ⟨a + 1, g⟩
    | .eq, .up => some ⟨a + 1, g⟩
    | .eq, .even => some (if a % 2 = 0 then ⟨a, g⟩ else ⟨a + 1, g⟩)

/-- The shortest decimal that names `x`. Seventeen digits always suffice. -/
def shortest (x : Dyadic) (tie : Tie) : Digits :=
  let k := x.magnitude
  ((List.range 17).findSome? fun (n : Nat) => x.onGrid tie (k - n - 1)).getD ⟨x.floorAt (k - 17), k - 17⟩

end Dyadic

end TreeWalk.Decimal
