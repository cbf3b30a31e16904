import TreeWalk.Toml.Number
import TreeWalk.Toml.Text

/-! Reading a TOML document. -/

namespace TreeWalk.Toml

mutual

/-- Reads a value, inside of which `depth` brackets and braces may be opened. Each step takes one unit
of fuel. -/
def readValue? (fuel depth : Nat) (cs : List Char) : Option (Toml × List Char) :=
  match fuel, cs with
  | 0, _ => none
  | fuel + 1, '[' :: rest =>
    match depth with
    | 0 => none
    | depth + 1 => readItems? fuel depth [] (skipFill false rest)
  | fuel + 1, '\x7b' :: rest =>
    match depth, skipSpace rest with
    | 0, _ => none
    | _ + 1, '\x7d' :: rest => some (.table .inline [], rest)
    | depth + 1, rest => readPairs? fuel depth [] rest
  | _ + 1, 't' :: 'r' :: 'u' :: 'e' :: rest => some (.boolean true, rest)
  | _ + 1, 'f' :: 'a' :: 'l' :: 's' :: 'e' :: rest => some (.boolean false, rest)
  | _ + 1, '"' :: rest => (readString? ('"' :: rest)).map fun (s, rest) => (.string s, rest)
  | _ + 1, '\x27' :: rest => (readString? ('\x27' :: rest)).map fun (s, rest) => (.string s, rest)
  | _ + 1, cs => readNumber? cs

/-- Reads the items of an array up to its end; `acc` holds those before, last first. -/
def readItems? (fuel depth : Nat) (acc : List Toml) (cs : List Char) : Option (Toml × List Char) :=
  match fuel, cs with
  | 0, _ => none
  | _ + 1, ']' :: rest => some (.array acc.reverse, rest)
  | fuel + 1, cs => do
    let (item, rest) ← readValue? fuel depth cs
    match skipFill false rest with
    | ',' :: rest => readItems? fuel depth (item :: acc) (skipFill false rest)
    | ']' :: rest => return (.array (item :: acc).reverse, rest)
    | _ => none

/-- Reads the pairs of a table in braces up to its end; `es` holds the entries made before. -/
def readPairs? (fuel depth : Nat) (es : Entries) (cs : List Char) : Option (Toml × List Char) :=
  match fuel with
  | 0 => none
  | fuel + 1 => do
    let ((path, key), rest) ← readPath? cs
    match rest with
    | '=' :: rest =>
      let (value, rest) ← readValue? fuel depth (skipSpace rest)
      let es ← define? path key value es
      match skipSpace rest with
      | ',' :: rest => readPairs? fuel depth es rest
      | '\x7d' :: rest => return (.table .inline es, rest)
      | _ => none
    | _ => none

end

/-- Reads a key, an equals sign and a value. -/
def readPair? (cs : List Char) : Option ((List String × String × Toml) × List Char) := do
  let ((path, key), rest) ← readPath? cs
  match rest with
  | '=' :: rest =>
    let (value, rest) ← readValue? (2 * rest.length + 1) (nestingBound - 1) (skipSpace rest)
    return ((path, key, value), rest)
  | _ => none

/-- The document read so far: its entries, and the path of the table of the last header. -/
structure Document where
  root : Entries := []
  current : List String := []

namespace Document

/-- Reads a header. -/
def readHeader? (d : Document) : List Char → Option (Document × List Char)
  | '[' :: '[' :: rest => do
    let ((path, key), rest) ← readPath? rest
    match rest with
    | ']' :: ']' :: rest => return (⟨← within? path (openTables? key) d.root, path ++ [key]⟩, rest)
    | _ => none
  | '[' :: rest => do
    let ((path, key), rest) ← readPath? rest
    match rest with
    | ']' :: rest => return (⟨← within? path (openTable? key) d.root, path ++ [key]⟩, rest)
    | _ => none
  | _ => none

/-- Reads a line with a header or a pair, without its end. -/
def readExpression? (d : Document) (cs : List Char) : Option (Document × List Char) :=
  match cs with
  | '[' :: _ => d.readHeader? cs
  | _ => do
    let ((path, key, value), rest) ← readPair? cs
    return ({ d with root := ← within? d.current (define? path key value) d.root }, rest)

/-- Reads the lines of a document. Every step takes a line. -/
def readLines? (fuel : Nat) (d : Document) (cs : List Char) : Option Document :=
  match fuel, skipSpace cs with
  | _, [] => some d
  | 0, _ => none
  | fuel + 1, cs =>
    match readLineEnd? cs with
    | some rest => readLines? fuel d rest
    | none => do
      let (d, rest) ← d.readExpression? cs
      readLines? fuel d (← readLineEnd? rest)

end Document

/-- The entries of a document; nothing if the text is no TOML. A byte order mark at the start does not
count. -/
def parse? (text : String) : Option Entries :=
  let cs := match text.toList with
    | '\ufeff' :: rest => rest
    | cs => cs
  ((Document.mk [] []).readLines? (cs.length + 1) cs).map (·.root)

end TreeWalk.Toml
