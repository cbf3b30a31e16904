import TreeWalk.Tree.Mismatch

/-! Reading a record from a JSON value. A record is written as an object, with its fields in any order
among other members that are ignored, or as the array of its fields. Every field is read on its own;
of several mistakes the one whose place in the text comes first is reported, a missing field last. -/

namespace TreeWalk

/-- The written parts of a record. -/
inductive Parts where
  | members (ms : List (String × Json))
  | items (js : List Json)

/-- A mistake, and the place among the written parts at which it shows. -/
structure Slip where
  place : Nat
  mistake : Mismatch

/-- What reading some fields of a record gives. -/
inductive Reading (α : Type) where
  | done (value : α)
  | failed (slip : Slip)

namespace Reading

variable {α β : Type}

def map (f : α → β) : Reading α → Reading β
  | .done a => .done (f a)
  | .failed s => .failed s

/-- Reads two groups of fields. If both fail, the earlier place counts. -/
def apply : Reading (α → β) → Reading α → Reading β
  | .done f, .done a => .done (f a)
  | .failed s, .done _ => .failed s
  | .done _, .failed s => .failed s
  | .failed s, .failed t => .failed (if t.place < s.place then t else s)

instance : Functor Reading := ⟨map, fun a => map fun _ => a⟩

instance : Seq Reading := ⟨fun f a => f.apply (a ())⟩

def ofExcept (place : Nat) : Except Mismatch α → Reading α
  | .ok a => .done a
  | .error m => .failed ⟨place, m⟩

def toExcept : Reading α → Except Mismatch α
  | .done a => .ok a
  | .failed s => .error s.mistake

end Reading

/-- A record type: its name, and its fields in order of declaration. -/
structure Schema where
  name : String
  fields : List String

/-- The places and values of the members with a key, numbered from `place`. -/
def occurrences (key : String) (place : Nat) : List (String × Json) → List (Nat × Json)
  | [] => []
  | (k, j) :: rest =>
    if k = key then (place, j) :: occurrences key (place + 1) rest
    else occurrences key (place + 1) rest

/-- Reads the member with a key; `absent` is what its absence gives. -/
def Parts.member {α : Type} (ms : List (String × Json)) (key : String)
    (read : Json → Except Mismatch α) (absent : Reading α) : Reading α :=
  match occurrences key 0 ms with
  | [] => absent
  | (place, j) :: again =>
    match read j, again with
    | .error m, _ => .failed ⟨place, m⟩
    | .ok a, [] => .done a
    | .ok _, (second, _) :: _ => .failed ⟨second, .duplicateField key⟩

/-- Reads the item at an index of a record written as an array. -/
def Schema.item {α : Type} (schema : Schema) (js : List Json) (index : Nat)
    (read : Json → Except Mismatch α) : Reading α :=
  match js[index]? with
  | some j => .ofExcept index (read j)
  | none => .failed ⟨index, .wrongLength index (.fields schema.name schema.fields.length)⟩

/-- Reads a field that has to be there. -/
def Schema.field {α : Type} (schema : Schema) (parts : Parts) (name : String)
    (read : Json → Except Mismatch α) : Reading α :=
  match parts with
  | .members ms => Parts.member ms name read (.failed ⟨ms.length, .missingField name⟩)
  | .items js => schema.item js (schema.fields.idxOf name) read

/-- Reads null as nothing. -/
def orNull {α : Type} (read : Json → Except Mismatch α) : Json → Except Mismatch (Option α)
  | .null => .ok none
  | j => (read j).map some

/-- Reads a field that may be null or, in an object, absent. -/
def Schema.optional {α : Type} (schema : Schema) (parts : Parts) (name : String)
    (read : Json → Except Mismatch α) : Reading (Option α) :=
  match parts with
  | .members ms => Parts.member ms name (orNull read) (.done none)
  | .items js => schema.item js (schema.fields.idxOf name) (orNull read)

/-- Ends the reading of a record: an array must hold no further items. -/
def Schema.finish {α : Type} (schema : Schema) (parts : Parts) (reading : Reading α) : Except Mismatch α :=
  match reading.toExcept, parts with
  | .ok a, .items js =>
    if schema.fields.length < js.length then .error (.wrongLength js.length (.items schema.fields.length))
    else .ok a
  | r, _ => r

/-- The parts of a value that should be a record. -/
def Schema.parts (schema : Schema) : Json → Except Mismatch Parts
  | .object ms => .ok (.members ms)
  | .array js => .ok (.items js)
  | j => .error (.wrongType (.ofJson j) (.record schema.name))

end TreeWalk
