import TreeWalk.Json.Basic

/-! Strings in JSON text. Writing escapes the quote, the backslash and the control characters below
the space; reading also takes an escaped slash and any `\u` escape that names a character, alone or
as a surrogate pair. -/

namespace TreeWalk.Json

def hexDigit (n : Nat) : Char := Nat.digitChar n

/-- How a character is written inside quotes. -/
def escape (c : Char) : List Char :=
  if c = '"' then ['\\', '"']
  else if c = '\\' then ['\\', '\\']
  else if c = '\x08' then ['\\', 'b']
  else if c = '\x0c' then ['\\', 'f']
  else if c = '\n' then ['\\', 'n']
  else if c = '\r' then ['\\', 'r']
  else if c = '\t' then ['\\', 't']
  else if c.toNat < 0x20 then
    ['\\', 'u', '0', '0', hexDigit (c.toNat / 16), hexDigit (c.toNat % 16)]
  else [c]

/-- A text in quotes. -/
def quote (s : String) : List Char := '"' :: (s.toList.flatMap escape ++ ['"'])

/-- The character that a backslash and one further character stand for. -/
def shortEscape? (c : Char) : Option Char :=
  match c with
  | '"' => some '"'
  | '\\' => some '\\'
  | '/' => some '/'
  | 'b' => some '\x08'
  | 'f' => some '\x0c'
  | 'n' => some '\n'
  | 'r' => some '\r'
  | 't' => some '\t'
  | _ => none

def hexValue? (c : Char) : Option Nat :=
  if c.isDigit then some (c.toNat - '0'.toNat)
  else if 'a' ≤ c ∧ c ≤ 'f' then some (c.toNat - 'a'.toNat + 10)
  else if 'A' ≤ c ∧ c ≤ 'F' then some (c.toNat - 'A'.toNat + 10)
  else none

/-- The number written by four hexadecimal digits. -/
def hexUnit? (a b c d : Char) : Option Nat := do
  return (((← hexValue? a) * 16 + (← hexValue? b)) * 16 + (← hexValue? c)) * 16 + (← hexValue? d)

/-- What is wrong where four hexadecimal digits should start: the text ends before four bytes, or
they are no digits. -/
def unitFlaw (cs : List Char) : Flaw :=
  if ((cs.take 4).map Char.utf8Size).foldr (· + ·) 0 < 4 then .truncated else .malformed

def isLeading (n : Nat) : Bool := 0xD800 ≤ n && n ≤ 0xDBFF

def isTrailing (n : Nat) : Bool := 0xDC00 ≤ n && n ≤ 0xDFFF

/-- The character of a surrogate pair. -/
def joinPair (high low : Nat) : Char := Char.ofNat (0x10000 + (high - 0xD800) * 0x400 + (low - 0xDC00))

/-- Reads the rest of a string up to its closing quote; `acc` holds what was read, last first. -/
def readQuoted (acc : List Char) : List Char → Except Flaw (String × List Char)
  | [] => .error .truncated
  | '"' :: rest => .ok (String.ofList acc.reverse, rest)
  | '\\' :: 'u' :: rest =>
    match rest with
    | a :: b :: c :: d :: after =>
      match hexUnit? a b c d with
      | none => .error (unitFlaw rest)
      | some n =>
        if isTrailing n then .error .malformed
        else if isLeading n then
          match after with
          | [] => .error .truncated
          | ['\\'] => .error .truncated
          | '\\' :: 'u' :: low =>
            match low with
            | a :: b :: c :: d :: after =>
              match hexUnit? a b c d with
              | none => .error (unitFlaw low)
              | some m => if isTrailing m then readQuoted (joinPair n m :: acc) after else .error .malformed
            | _ => .error (unitFlaw low)
          | _ => .error .malformed
        else readQuoted (Char.ofNat n :: acc) after
    | _ => .error (unitFlaw rest)
  | ['\\'] => .error .truncated
  | '\\' :: e :: rest =>
    match shortEscape? e with
    | some c => readQuoted (c :: acc) rest
    | none => .error .malformed
  | c :: rest => if c.toNat < 0x20 then .error .malformed else readQuoted (c :: acc) rest

/-- Passes over the rest of a string. Any four hexadecimal digits are accepted after `\u`. -/
def skipQuoted : List Char → Except Flaw (List Char)
  | [] => .error .truncated
  | '"' :: rest => .ok rest
  | '\\' :: 'u' :: rest =>
    match rest with
    | a :: b :: c :: d :: after =>
      if (hexUnit? a b c d).isSome then skipQuoted after else .error (unitFlaw rest)
    | _ => .error (unitFlaw rest)
  | ['\\'] => .error .truncated
  | '\\' :: e :: rest => if (shortEscape? e).isSome then skipQuoted rest else .error .malformed
  | c :: rest => if c.toNat < 0x20 then .error .malformed else skipQuoted rest

end TreeWalk.Json
