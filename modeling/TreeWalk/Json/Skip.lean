import TreeWalk.Json.Number
import TreeWalk.Json.Quoted
import TreeWalk.Json.Read

/-! Passing over a JSON value whose content does not matter. Only the grammar is checked: there is no
limit on nesting, numbers may be out of range and surrogates may stand alone. The brackets still open
are kept on a list, so that nesting costs no stack. A number that the text cuts off is malformed. -/

namespace TreeWalk.Json

/-- What encloses the value being passed over. -/
inductive Enclosure where
  | array
  | object

/-- Passes over a value that is neither an array nor an object and starts with `c`. -/
def skipScalar (c : Char) (rest : List Char) : Except Flaw (List Char) :=
  match c with
  | 'n' => readWord ['u', 'l', 'l'] rest
  | 't' => readWord ['r', 'u', 'e'] rest
  | 'f' => readWord ['a', 'l', 's', 'e'] rest
  | '"' => skipQuoted rest
  | _ =>
    if c = '-' ∨ c.isDigit then
      match NumberText.scan (c :: rest) with
      | .ok (_, rest) => .ok rest
      | .error _ => .error .malformed
    else .error .malformed

/-- Passes over a key and its colon. -/
def skipKey (cs : List Char) : Except Flaw (List Char) :=
  match skipBlank cs with
  | '"' :: rest => do readColon (← skipQuoted rest)
  | [] => .error .truncated
  | _ => .error .malformed

mutual

/-- Passes over a value and all that encloses it. -/
def skipValue (fuel : Nat) (enclosing : List Enclosure) (cs : List Char) : Except Flaw (List Char) :=
  match fuel with
  | 0 => .error .malformed
  | fuel + 1 =>
    match skipBlank cs with
    | [] => .error .truncated
    | '[' :: rest =>
      match skipBlank rest with
      | ']' :: rest => skipRest fuel enclosing rest
      | [] => .error .truncated
      | rest => skipValue fuel (.array :: enclosing) rest
    | '\x7b' :: rest =>
      match skipBlank rest with
      | '\x7d' :: rest => skipRest fuel enclosing rest
      | rest => do skipValue fuel (.object :: enclosing) (← skipKey rest)
    | c :: rest => do skipRest fuel enclosing (← skipScalar c rest)

/-- Goes on after a value, until all that encloses it is closed. -/
def skipRest (fuel : Nat) (enclosing : List Enclosure) (cs : List Char) : Except Flaw (List Char) :=
  match fuel, enclosing with
  | _, [] => .ok cs
  | 0, _ :: _ => .error .malformed
  | fuel + 1, .array :: outer =>
    match skipBlank cs with
    | ']' :: rest => skipRest fuel outer rest
    | ',' :: rest => skipValue fuel (.array :: outer) rest
    | [] => .error .truncated
    | _ => .error .malformed
  | fuel + 1, .object :: outer =>
    match skipBlank cs with
    | '\x7d' :: rest => skipRest fuel outer rest
    | ',' :: rest => do skipValue fuel (.object :: outer) (← skipKey rest)
    | [] => .error .truncated
    | _ => .error .malformed

end

/-- Passes over a value at the start of a text. -/
def skip (cs : List Char) : Except Flaw (List Char) := skipValue (cs.length + 1) [] cs

end TreeWalk.Json
