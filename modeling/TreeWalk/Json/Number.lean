import TreeWalk.Decimal.Scale
import TreeWalk.Json.Basic

/-! Numbers in JSON text. A literal without fraction and exponent that fits sixty-four bits (unsigned,
or signed when it has a minus sign) is an integer; every other literal, `-0` too, is a double. A double
is read from a significand of at most sixty-four bits: integer digits that do not fit are dropped and
raise the exponent, fraction digits that do not fit are dropped. -/

namespace TreeWalk.Json

/-- The parts of a number literal. -/
structure NumberText where
  negative : Bool
  whole : List Char
  fraction : List Char
  /-- Whether the exponent is negative, and its digits. -/
  exponent : Option (Bool × List Char)

namespace NumberText

def digitValue (c : Char) : Nat := c.toNat - '0'.toNat

def natValue (ds : List Char) : Nat := ds.foldl (fun n c => 10 * n + digitValue c) 0

/-- Extends a significand by digits as long as it stays below `2 ^ 64`; also gives the number of
digits left over. -/
def extend (significand : Nat) : List Char → Nat × Nat
  | [] => (significand, 0)
  | c :: cs =>
    let next := 10 * significand + digitValue c
    if next < UInt64.size then extend next cs else (significand, cs.length + 1)

/-- The double a literal stands for; nothing if it is out of range. -/
def toFloat? (t : NumberText) : Option Float :=
  let (s, dropped) := extend 0 t.whole
  let (s, unused) := extend s t.fraction
  let e : Int := (dropped : Int) - (t.fraction.length - unused : Nat)
  let magnitude := match t.exponent with
    | none => Decimal.ofParts s e
    | some (below, ds) =>
      let written := natValue ds
      if written ≤ Int32.maxValue.toInt then Decimal.ofParts s (if below then e - written else e + written)
      else if s = 0 ∨ below then some 0
      else none
  magnitude.map fun f => if t.negative then -f else f

/-- The integer a literal stands for, if it is one. -/
def toInt? (t : NumberText) : Option Int :=
  let n := natValue t.whole
  match t.fraction, t.exponent with
  | [], none =>
    if t.negative then if 0 < n ∧ Int64.minValue.toInt ≤ -n then some (-n) else none
    else if n < UInt64.size then some n else none
  | _, _ => none

/-- The value of a literal; nothing if it is out of range. -/
def value? (t : NumberText) : Option Json :=
  match t.toInt? with
  | some n => some (.integer n)
  | none => t.toFloat?.map .double

/-- Splits off the digits at the start of a text. -/
def spanDigits (cs : List Char) : List Char × List Char := cs.span Char.isDigit

/-- Reads the digits that have to follow here. -/
def scanDigits (cs : List Char) : Except Flaw (List Char × List Char) :=
  match spanDigits cs with
  | ([], []) => .error .truncated
  | ([], _ :: _) => .error .malformed
  | (ds, rest) => .ok (ds, rest)

/-- Reads the digits before the point. A zero stands alone. -/
def scanWhole (cs : List Char) : Except Flaw (List Char × List Char) := do
  let (ds, rest) ← scanDigits cs
  match ds with
  | '0' :: _ :: _ => .error .malformed
  | _ => .ok (ds, rest)

/-- Reads the digits after a point, if there is a point. -/
def scanFraction : List Char → Except Flaw (List Char × List Char)
  | '.' :: rest => scanDigits rest
  | cs => .ok ([], cs)

/-- Reads an optional sign; true for a minus. -/
def scanSign : List Char → Bool × List Char
  | '+' :: rest => (false, rest)
  | '-' :: rest => (true, rest)
  | cs => (false, cs)

/-- Reads an exponent, if there is one. -/
def scanExponent : List Char → Except Flaw (Option (Bool × List Char) × List Char)
  | c :: rest =>
    if c == 'e' || c == 'E' then do
      let (below, rest) := scanSign rest
      let (ds, rest) ← scanDigits rest
      return (some (below, ds), rest)
    else .ok (none, c :: rest)
  | [] => .ok (none, [])

/-- Reads a number literal. -/
def scan (cs : List Char) : Except Flaw (NumberText × List Char) := do
  let (negative, rest) := match cs with
    | '-' :: rest => (true, rest)
    | cs => (false, cs)
  let (whole, rest) ← scanWhole rest
  let (fraction, rest) ← scanFraction rest
  let (exponent, rest) ← scanExponent rest
  return (⟨negative, whole, fraction, exponent⟩, rest)

end NumberText

/-- Reads a number, which has to be in range. -/
def readNumber (cs : List Char) : Except Flaw (Json × List Char) := do
  let (t, rest) ← NumberText.scan cs
  match t.value? with
  | some v => .ok (v, rest)
  | none => .error .malformed

end TreeWalk.Json
