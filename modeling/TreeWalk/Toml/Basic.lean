/-! TOML values, and how the tables of a document grow. A table may be extended as long as it was only
implied: by a longer header or by dotted keys. Every key of a table is given once. -/

namespace TreeWalk

namespace Toml

/-- How a table came about. -/
inductive Origin where
  /-- Written in braces; never extended. -/
  | inline
  /-- Made by a dotted key; extended by dotted keys. -/
  | dotted
  /-- Made by its own header. -/
  | header
  /-- Made on the way to another table; extended by its own header. -/
  | implied
deriving DecidableEq, Repr

end Toml

/-- A TOML value. -/
inductive Toml where
  | string (s : String)
  | integer (n : Int)
  | float (x : Float)
  | boolean (b : Bool)
  | dateTime (text : String)
  | array (items : List Toml)
  /-- The tables under headers in double brackets, the latest first. -/
  | tables (items : List (List (String × Toml)))
  | table (origin : Toml.Origin) (entries : List (String × Toml))

namespace Toml

/-- The entries of a table, in the order in which they were made. -/
abbrev Entries := List (String × Toml)

/-- Puts a value in place of that of a key that is there. -/
def replace (es : Entries) (key : String) (value : Toml) : Entries :=
  es.map fun (k, v) => if k = key then (k, value) else (k, v)

/-- Gives a key that is not there a value. -/
def add? (es : Entries) (key : String) (value : Toml) : Option Entries :=
  match es.lookup key with
  | none => some (es ++ [(key, value)])
  | some _ => none

/-- Gives the key after a dotted path a value. -/
def define? (path : List String) (key : String) (value : Toml) (es : Entries) : Option Entries :=
  match path with
  | [] => add? es key value
  | k :: path =>
    match es.lookup k with
    | none => (define? path key value []).map fun sub => es ++ [(k, .table .dotted sub)]
    | some (.table .dotted sub) => (define? path key value sub).map fun sub => replace es k (.table .dotted sub)
    | some _ => none

/-- Changes the table at a path, making the tables on the way; of tables under double brackets the
latest is meant. -/
def within? (path : List String) (change : Entries → Option Entries) (es : Entries) : Option Entries :=
  match path with
  | [] => change es
  | k :: path =>
    match es.lookup k with
    | none => (within? path change []).map fun sub => es ++ [(k, .table .implied sub)]
    | some (.table .inline _) => none
    | some (.table origin sub) => (within? path change sub).map fun sub => replace es k (.table origin sub)
    | some (.tables (latest :: others)) =>
      (within? path change latest).map fun sub => replace es k (.tables (sub :: others))
    | some _ => none

/-- Opens the table of a header. -/
def openTable? (key : String) (es : Entries) : Option Entries :=
  match es.lookup key with
  | none => some (es ++ [(key, .table .header [])])
  | some (.table .implied sub) => some (replace es key (.table .header sub))
  | some _ => none

/-- Opens a further table of a header in double brackets. -/
def openTables? (key : String) (es : Entries) : Option Entries :=
  match es.lookup key with
  | none => some (es ++ [(key, .tables [[]])])
  | some (.tables items) => some (replace es key (.tables ([] :: items)))
  | some _ => none

end Toml

end TreeWalk
