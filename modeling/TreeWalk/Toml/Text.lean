/-! Blanks, comments, keys and strings in TOML text. -/

namespace TreeWalk.Toml

def isSpace (c : Char) : Bool := c == ' ' || c == '\t'

def skipSpace (cs : List Char) : List Char := cs.dropWhile isSpace

/-- A character that may stand in a comment or a string on one line. -/
def isPlain (c : Char) : Bool := c == '\t' || (0x20 ≤ c.toNat && c.toNat != 0x7f)

/-- Reads a line break: a line feed, with or without a carriage return before it. -/
def readBreak? : List Char → Option (List Char)
  | '\n' :: rest => some rest
  | '\x0d' :: '\n' :: rest => some rest
  | _ => none

def skipComment : List Char → List Char
  | '#' :: rest => rest.dropWhile isPlain
  | cs => cs

/-- Reads what may follow on a line, and its end. -/
def readLineEnd? (cs : List Char) : Option (List Char) :=
  match skipComment (skipSpace cs) with
  | [] => some []
  | cs => readBreak? cs

/-- Passes over blanks, line breaks and comments; `comment` says whether it is in a comment. -/
def skipFill (comment : Bool) : List Char → List Char
  | [] => []
  | '\n' :: rest => skipFill false rest
  | '\x0d' :: '\n' :: rest => skipFill false rest
  | c :: rest =>
    if comment then if isPlain c then skipFill true rest else c :: rest
    else if isSpace c then skipFill false rest
    else if c = '#' then skipFill true rest
    else c :: rest

section Strings

def hexValue? (c : Char) : Option Nat :=
  if c.isDigit then some (c.toNat - '0'.toNat)
  else if 'a' ≤ c ∧ c ≤ 'f' then some (c.toNat - 'a'.toNat + 10)
  else if 'A' ≤ c ∧ c ≤ 'F' then some (c.toNat - 'A'.toNat + 10)
  else none

/-- The character with a hexadecimal number, if there is one. -/
def charOfHex? (ds : List Char) : Option Char := do
  let n ← ds.foldlM (fun n c => (hexValue? c).map (16 * n + ·)) 0
  if n.isValidChar then some (Char.ofNat n) else none

/-- The character that a backslash and one further character stand for. -/
def shortEscape? (c : Char) : Option Char :=
  match c with
  | '"' => some '"'
  | '\\' => some '\\'
  | 'b' => some '\x08'
  | 't' => some '\t'
  | 'n' => some '\n'
  | 'f' => some '\x0c'
  | 'r' => some '\r'
  | _ => none

/-- Reads the rest of a string in quotes on one line. -/
def readBasic? (acc : List Char) : List Char → Option (String × List Char)
  | '"' :: rest => some (String.ofList acc.reverse, rest)
  | '\\' :: 'u' :: a :: b :: c :: d :: rest => do readBasic? ((← charOfHex? [a, b, c, d]) :: acc) rest
  | '\\' :: 'U' :: a :: b :: c :: d :: e :: f :: g :: h :: rest => do
    readBasic? ((← charOfHex? [a, b, c, d, e, f, g, h]) :: acc) rest
  | '\\' :: c :: rest => do readBasic? ((← shortEscape? c) :: acc) rest
  | c :: rest => if isPlain c then readBasic? (c :: acc) rest else none
  | [] => none

/-- Reads the rest of a string in apostrophes on one line. -/
def readLiteral? (acc : List Char) : List Char → Option (String × List Char)
  | '\x27' :: rest => some (String.ofList acc.reverse, rest)
  | c :: rest => if isPlain c then readLiteral? (c :: acc) rest else none
  | [] => none

/-- Ends a string in triple quotes after which more quotes come: up to two of them belong to it. -/
def closeTriple (quote : Char) (acc rest : List Char) : String × List Char :=
  match rest with
  | a :: b :: rest' =>
    if a = quote ∧ b = quote then (String.ofList (quote :: quote :: acc).reverse, rest')
    else if a = quote then (String.ofList (quote :: acc).reverse, b :: rest')
    else (String.ofList acc.reverse, rest)
  | [a] =>
    if a = quote then (String.ofList (quote :: acc).reverse, []) else (String.ofList acc.reverse, rest)
  | [] => (String.ofList acc.reverse, rest)

/-- What a string in triple quotes does with blanks and line breaks. -/
inductive Folding where
  /-- They belong to the string. -/
  | keep
  /-- After a backslash: a line break has to come. -/
  | await
  /-- After a backslash and a line break: they are passed over. -/
  | drop

/-- Reads the rest of a string in triple quotes. A backslash at the end of a line joins the text to
what comes next. -/
def readBasicLines? (folding : Folding) (acc : List Char) : List Char → Option (String × List Char)
  | '\n' :: rest =>
    match folding with
    | .keep => readBasicLines? .keep ('\n' :: acc) rest
    | _ => readBasicLines? .drop acc rest
  | '\x0d' :: '\n' :: rest =>
    match folding with
    | .keep => readBasicLines? .keep ('\n' :: acc) rest
    | _ => readBasicLines? .drop acc rest
  | c :: rest =>
    match folding, isSpace c with
    | .await, true => readBasicLines? .await acc rest
    | .await, false => none
    | .drop, true => readBasicLines? .drop acc rest
    | _, _ =>
      match c, rest with
      | '"', '"' :: '"' :: rest => some (closeTriple '"' acc rest)
      | '\\', 'u' :: a :: b :: c :: d :: rest => do
        readBasicLines? .keep ((← charOfHex? [a, b, c, d]) :: acc) rest
      | '\\', 'U' :: a :: b :: c :: d :: e :: f :: g :: h :: rest => do
        readBasicLines? .keep ((← charOfHex? [a, b, c, d, e, f, g, h]) :: acc) rest
      | '\\', '\n' :: rest => readBasicLines? .drop acc rest
      | '\\', '\x0d' :: '\n' :: rest => readBasicLines? .drop acc rest
      | '\\', e :: rest =>
        if isSpace e then readBasicLines? .await acc rest
        else do readBasicLines? .keep ((← shortEscape? e) :: acc) rest
      | '\\', [] => none
      | c, rest => if isPlain c then readBasicLines? .keep (c :: acc) rest else none
  | [] => none

/-- Reads the rest of a string in triple apostrophes. -/
def readLiteralLines? (acc : List Char) : List Char → Option (String × List Char)
  | '\n' :: rest => readLiteralLines? ('\n' :: acc) rest
  | '\x0d' :: '\n' :: rest => readLiteralLines? ('\n' :: acc) rest
  | '\x27' :: '\x27' :: '\x27' :: rest => some (closeTriple '\x27' acc rest)
  | c :: rest => if isPlain c then readLiteralLines? (c :: acc) rest else none
  | [] => none

/-- A line break right after triple quotes does not count. -/
def skipFirstBreak (cs : List Char) : List Char := (readBreak? cs).getD cs

/-- Reads a string of any kind. -/
def readString? : List Char → Option (String × List Char)
  | '"' :: '"' :: '"' :: rest => readBasicLines? .keep [] (skipFirstBreak rest)
  | '"' :: rest => readBasic? [] rest
  | '\x27' :: '\x27' :: '\x27' :: rest => readLiteralLines? [] (skipFirstBreak rest)
  | '\x27' :: rest => readLiteral? [] rest
  | _ => none

end Strings

section Keys

def isKeyChar (c : Char) : Bool := c.isAlphanum || c == '_' || c == '-'

/-- Reads a key without dots. -/
def readSimpleKey? : List Char → Option (String × List Char)
  | '"' :: rest => readBasic? [] rest
  | '\x27' :: rest => readLiteral? [] rest
  | cs =>
    match cs.span isKeyChar with
    | ([], _) => none
    | (key, rest) => some (String.ofList key, rest)

/-- How many parts a dotted key may have, and how deep values may nest, is below this number. -/
def nestingBound : Nat := 80

/-- Reads a dotted key and the blanks around it: all its parts. -/
def readKey? (fuel : Nat) (cs : List Char) : Option (List String × List Char) :=
  match fuel with
  | 0 => none
  | fuel + 1 => do
    let (key, rest) ← readSimpleKey? (skipSpace cs)
    match skipSpace rest with
    | '.' :: rest =>
      let (keys, rest) ← readKey? fuel rest
      return (key :: keys, rest)
    | rest => return ([key], rest)

/-- Reads a dotted key: the path before its last part, and that part. -/
def readPath? (cs : List Char) : Option ((List String × String) × List Char) := do
  let (keys, rest) ← readKey? (nestingBound - 1) cs
  let last ← keys.getLast?
  return ((keys.dropLast, last), rest)

end Keys

end TreeWalk.Toml
