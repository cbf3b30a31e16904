import TreeWalk.Decimal.Shortest

/-! Writing a finite double. The digits are the shortest ones; a layout decides which decimal
exponents are written positionally and which way an exact tie between two shortest decimals goes.
Positional text always has a point. -/

namespace TreeWalk.Decimal

/-- `positional x` says whether a number `d.ddd * 10 ^ x` is written without an exponent. -/
structure Layout where
  positional : Int → Bool
  tie : Tie

/-- Source text: never an exponent, a tie goes up. -/
def Layout.plain : Layout := ⟨fun _ => true, .up⟩

/-- Data text: an exponent below `10 ^ (-5)` and from `10 ^ 16`, a tie goes to the even digit. -/
def Layout.compact : Layout := ⟨fun x => decide (-5 ≤ x) && decide (x ≤ 15), .even⟩

/-- The decimal digits of a number, most significant first, without trailing zeros. -/
def trimmedDigits (n : Nat) : List Char :=
  ((Nat.toDigits 10 n).reverse.dropWhile (· == '0')).reverse

/-- Positional text of `0.ds * 10 ^ point`. -/
def positionalText (ds : List Char) (point : Int) : List Char :=
  if point ≤ 0 then '0' :: '.' :: (List.replicate (-point).toNat '0' ++ ds)
  else
    let whole := ds.take point.toNat ++ List.replicate (point.toNat - ds.length) '0'
    let fraction := ds.drop point.toNat
    whole ++ '.' :: (if fraction.isEmpty then ['0'] else fraction)

/-- Text with an exponent, whose sign is always written: `1.5e+16`. -/
def exponentText (ds : List Char) (x : Int) : List Char :=
  let mantissa := match ds with
    | d :: e :: es => d :: '.' :: e :: es
    | ds => ds
  mantissa ++ 'e' :: (if x < 0 then '-' else '+') :: Nat.toDigits 10 x.natAbs

/-- Text of a positive number given by its digits. -/
def Layout.text (layout : Layout) (d : Digits) : List Char :=
  let all := Nat.toDigits 10 d.significand
  let point := d.exponent + all.length
  let ds := trimmedDigits d.significand
  if layout.positional (point - 1) then positionalText ds point else exponentText ds (point - 1)

/-- Text of a finite double, the sign of zero included. -/
def Layout.render (layout : Layout) (x : Float) : String :=
  let bits := x.toBits
  let magnitude := Dyadic.ofBits bits
  let text := if magnitude.m = 0 then ['0', '.', '0'] else layout.text (magnitude.shortest layout.tie)
  String.ofList (if Nat.pow 2 63 ≤ bits.toNat then '-' :: text else text)

end TreeWalk.Decimal
