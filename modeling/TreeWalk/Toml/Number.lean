import TreeWalk.Toml.Basic

/-! Numbers, dates and times in TOML text. -/

namespace TreeWalk.Toml

section Digits

def isOctal (c : Char) : Bool := '0' ≤ c && c ≤ '7'

def isBinary (c : Char) : Bool := c == '0' || c == '1'

def isHex (c : Char) : Bool := c.isDigit || ('a' ≤ c && c ≤ 'f') || ('A' ≤ c && c ≤ 'F')

def digitValue (c : Char) : Nat :=
  if c.isDigit then c.toNat - '0'.toNat
  else if 'a' ≤ c then c.toNat - 'a'.toNat + 10
  else c.toNat - 'A'.toNat + 10

def valueIn (base : Nat) (ds : List Char) : Nat := ds.foldl (fun n c => base * n + digitValue c) 0

/-- Reads the digits after a first one; an underscore may stand between two digits. -/
def moreDigits (isDigit : Char → Bool) : List Char → List Char × List Char
  | '_' :: c :: rest =>
    if isDigit c then
      let (ds, rest) := moreDigits isDigit rest
      (c :: ds, rest)
    else ([], '_' :: c :: rest)
  | c :: rest =>
    if isDigit c then
      let (ds, rest) := moreDigits isDigit rest
      (c :: ds, rest)
    else ([], c :: rest)
  | [] => ([], [])

/-- Reads at least one digit. -/
def readDigits? (isDigit : Char → Bool) : List Char → Option (List Char × List Char)
  | c :: rest =>
    if isDigit c then
      let (ds, rest) := moreDigits isDigit rest
      some (c :: ds, rest)
    else none
  | [] => none

/-- Reads digits of which the first is no zero, or a zero alone. -/
def readWhole? : List Char → Option (List Char × List Char)
  | '0' :: rest => some (['0'], rest)
  | cs => readDigits? Char.isDigit cs

/-- Reads an optional sign; true for a minus. -/
def readSign : List Char → Bool × List Char
  | '+' :: rest => (false, rest)
  | '-' :: rest => (true, rest)
  | cs => (false, cs)

end Digits

section Integers

/-- An integer of sixty-four bits. -/
def fitting? (n : Int) : Option Toml :=
  if Int64.minValue.toInt ≤ n ∧ n ≤ Int64.maxValue.toInt then some (.integer n) else none

def readInBase? (base : Nat) (isDigit : Char → Bool) (cs : List Char) : Option (Toml × List Char) := do
  let (ds, rest) ← readDigits? isDigit cs
  return (← fitting? (valueIn base ds), rest)

def readInteger? : List Char → Option (Toml × List Char)
  | '0' :: 'x' :: rest => readInBase? 16 isHex rest
  | '0' :: 'o' :: rest => readInBase? 8 isOctal rest
  | '0' :: 'b' :: rest => readInBase? 2 isBinary rest
  | cs => do
    let (negative, rest) := readSign cs
    let (ds, rest) ← readWhole? rest
    let n : Int := valueIn 10 ds
    return (← fitting? (if negative then -n else n), rest)

end Integers

section Floats

/-- The double nearest to `m * 10 ^ e`. -/
def nearest (m : Nat) (e : Int) : Float :=
  let magnitude := e + (Nat.toDigits 10 m).length
  if m = 0 ∨ magnitude < -400 then 0
  else if 400 < magnitude then 1 / 0
  else Float.ofScientific m (e < 0) e.natAbs

/-- Reads the digits after a point, if there is one. -/
def readFraction? : List Char → Option (List Char × List Char)
  | '.' :: rest => readDigits? Char.isDigit rest
  | cs => some ([], cs)

/-- Reads an exponent, if there is one; it is zero if there is none. -/
def readExponent? : List Char → Option (Option Int × List Char)
  | c :: rest =>
    if c = 'e' ∨ c = 'E' then do
      let (negative, rest) := readSign rest
      let (ds, rest) ← readDigits? Char.isDigit rest
      let n : Int := valueIn 10 ds
      return (some (if negative then -n else n), rest)
    else some (none, c :: rest)
  | [] => some (none, [])

/-- Reads a number with a fraction or an exponent. It must not be too large. -/
def readDecimal? (cs : List Char) : Option (Toml × List Char) := do
  let (negative, rest) := readSign cs
  let (whole, rest) ← readWhole? rest
  let (fraction, rest) ← readFraction? rest
  let (exponent, rest) ← readExponent? rest
  if fraction.isEmpty && exponent.isNone then none
  else
    let x := nearest (valueIn 10 (whole ++ fraction)) (exponent.getD 0 - fraction.length)
    if negative then return (.float (-x), rest)
    else if x.isInf then none
    else return (.float x, rest)

/-- Reads an infinity or the value that is no number. -/
def readSpecial? (cs : List Char) : Option (Toml × List Char) :=
  let (negative, rest) := readSign cs
  match rest with
  | 'i' :: 'n' :: 'f' :: rest => some (.float (if negative then -1 / 0 else 1 / 0), rest)
  | 'n' :: 'a' :: 'n' :: rest => some (.float (0 / 0), rest)
  | _ => none

end Floats

section Dates

/-- Reads a number of a fixed count of digits that lies between two bounds. -/
def readField? (count low high : Nat) (cs : List Char) : Option (Nat × List Char) :=
  let ds := cs.take count
  if ds.length = count ∧ ds.all Char.isDigit then
    let n := valueIn 10 ds
    if low ≤ n ∧ n ≤ high then some (n, cs.drop count) else none
  else none

def readChar? (c : Char) : List Char → Option (List Char)
  | d :: rest => if c = d then some rest else none
  | [] => none

def isLeapYear (year : Nat) : Bool := year % 4 == 0 && (year % 100 != 0 || year % 400 == 0)

def daysIn (year month : Nat) : Nat :=
  match month with
  | 2 => if isLeapYear year then 29 else 28
  | 4 | 6 | 9 | 11 => 30
  | _ => 31

def readDate? (cs : List Char) : Option (List Char) := do
  let (year, rest) ← readField? 4 0 9999 cs
  let (month, rest) ← readField? 2 1 12 (← readChar? '-' rest)
  let (_, rest) ← readField? 2 1 (daysIn year month) (← readChar? '-' rest)
  return rest

/-- Passes over the fraction of a second. -/
def readSecondFraction? : List Char → Option (List Char)
  | '.' :: rest =>
    match rest.span Char.isDigit with
    | ([], _) => none
    | (_, rest) => some rest
  | cs => some cs

def readTime? (cs : List Char) : Option (List Char) := do
  let (_, rest) ← readField? 2 0 23 cs
  let (_, rest) ← readField? 2 0 59 (← readChar? ':' rest)
  let (_, rest) ← readField? 2 0 60 (← readChar? ':' rest)
  readSecondFraction? rest

/-- Reads the offset of a time zone, if there is one. -/
def readOffset? : List Char → Option (List Char)
  | c :: rest =>
    if c = 'Z' ∨ c = 'z' then some rest
    else if c = '+' ∨ c = '-' then do
      let (_, rest) ← readField? 2 0 23 rest
      let (_, rest) ← readField? 2 0 59 (← readChar? ':' rest)
      return rest
    else some (c :: rest)
  | [] => some []

/-- Reads the time after a date, if there is one. -/
def readTimeAfterDate? : List Char → Option (List Char)
  | c :: rest =>
    if c = 'T' ∨ c = 't' then do readOffset? (← readTime? rest)
    else if c = ' ' then
      match readTime? rest with
      | some rest => readOffset? rest
      | none => some (c :: rest)
    else some (c :: rest)
  | [] => some []

/-- Reads a date, a time or both. -/
def readDateTime? (cs : List Char) : Option (Toml × List Char) := do
  let rest ← match readDate? cs with
    | some rest => readTimeAfterDate? rest
    | none => readTime? cs
  return (.dateTime (String.ofList (cs.take (cs.length - rest.length))), rest)

end Dates

/-- Reads a date, a time or a number. -/
def readNumber? (cs : List Char) : Option (Toml × List Char) :=
  readDateTime? cs <|> readDecimal? cs <|> readSpecial? cs <|> readInteger? cs

end TreeWalk.Toml
