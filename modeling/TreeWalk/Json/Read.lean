import TreeWalk.Json.Number
import TreeWalk.Json.Quoted

/-! Reading a JSON value at the start of a text. A value is read whole, with at most `depth` brackets
and braces open at once; what follows it is left. Each step of the reader takes one unit of fuel and
every second step takes a character, so twice the length of the text is enough. -/

namespace TreeWalk.Json

/-- Reads the rest of a word such as `true` whose first letter was seen. -/
def readWord : List Char → List Char → Except Flaw (List Char)
  | [], cs => .ok cs
  | _ :: _, [] => .error .truncated
  | w :: ws, c :: cs => if w = c then readWord ws cs else .error .malformed

/-- Reads the colon after a key. -/
def readColon (cs : List Char) : Except Flaw (List Char) :=
  match skipBlank cs with
  | ':' :: rest => .ok rest
  | [] => .error .truncated
  | _ => .error .malformed

/-- Reads a key, but not its colon; blanks before the key are passed over. -/
def readName (cs : List Char) : Except Flaw (String × List Char) :=
  match skipBlank cs with
  | '"' :: rest => readQuoted [] rest
  | [] => .error .truncated
  | _ => .error .malformed

/-- Reads a key and its colon. -/
def readKey (cs : List Char) : Except Flaw (String × List Char) := do
  let (key, rest) ← readName cs
  return (key, ← readColon rest)

/-- Reads a value that is neither an array nor an object and starts with `c`. -/
def readScalar (c : Char) (rest : List Char) : Except Flaw (Json × List Char) :=
  match c with
  | 'n' => return (.null, ← readWord ['u', 'l', 'l'] rest)
  | 't' => return (.bool true, ← readWord ['r', 'u', 'e'] rest)
  | 'f' => return (.bool false, ← readWord ['a', 'l', 's', 'e'] rest)
  | '"' => do
    let (s, rest) ← readQuoted [] rest
    return (.string s, rest)
  | _ => if c = '-' ∨ c.isDigit then readNumber (c :: rest) else .error .malformed

mutual

/-- Reads a value. -/
def readValue (fuel depth : Nat) (cs : List Char) : Except Flaw (Json × List Char) :=
  match fuel with
  | 0 => .error .malformed
  | fuel + 1 =>
    match skipBlank cs with
    | [] => .error .truncated
    | '[' :: rest =>
      match depth with
      | 0 => .error .malformed
      | depth + 1 =>
        match skipBlank rest with
        | ']' :: rest => .ok (.array [], rest)
        | [] => .error .truncated
        | rest => readItem fuel depth [] rest
    | '\x7b' :: rest =>
      match depth with
      | 0 => .error .malformed
      | depth + 1 =>
        match skipBlank rest with
        | '\x7d' :: rest => .ok (.object [], rest)
        | rest => readMember fuel depth [] rest
    | c :: rest => readScalar c rest

/-- Reads an item of an array and all that follow it; `acc` holds the items before, last first. -/
def readItem (fuel depth : Nat) (acc : List Json) (cs : List Char) : Except Flaw (Json × List Char) :=
  match fuel with
  | 0 => .error .malformed
  | fuel + 1 => do
    let (item, rest) ← readValue fuel depth cs
    match skipBlank rest with
    | ']' :: rest => .ok (.array (item :: acc).reverse, rest)
    | ',' :: rest => readItem fuel depth (item :: acc) rest
    | [] => .error .truncated
    | _ => .error .malformed

/-- Reads a member of an object and all that follow it; `acc` holds the members before, last first. -/
def readMember (fuel depth : Nat) (acc : List (String × Json)) (cs : List Char) :
    Except Flaw (Json × List Char) :=
  match fuel with
  | 0 => .error .malformed
  | fuel + 1 => do
    let (key, rest) ← readKey cs
    let (value, rest) ← readValue fuel depth rest
    match skipBlank rest with
    | '\x7d' :: rest => .ok (.object ((key, value) :: acc).reverse, rest)
    | ',' :: rest => readMember fuel depth ((key, value) :: acc) rest
    | [] => .error .truncated
    | _ => .error .malformed

end

/-- Reads a value at the start of a text. -/
def read (depth : Nat) (cs : List Char) : Except Flaw (Json × List Char) :=
  readValue (2 * cs.length + 1) depth cs

end TreeWalk.Json
