import TreeWalk.Json.Read
import TreeWalk.Json.Skip
import TreeWalk.Tree.Decode

/-! Trees from JSON text. A program is read from left to right, one top-level statement after the
other: each is read whole and then decoded before the next is looked at, and the tag of such an
outermost node is settled as soon as it is read. A second tag, or a second list of statements, is
refused at its key, before the colon. So an early mistake in the content wins over a later one in the
grammar. -/

namespace TreeWalk

/-- Why a text is not a tree. -/
inductive LoadError where
  | flaw (flaw : Json.Flaw)
  | mismatch (mismatch : Mismatch)

namespace Load

open Json (skipBlank)

def ofJson {α : Type} : Except Json.Flaw α → Except LoadError α
  | .ok a => .ok a
  | .error flaw => .error (.flaw flaw)

def ofTree {α : Type} : Except Mismatch α → Except LoadError α
  | .ok a => .ok a
  | .error mismatch => .error (.mismatch mismatch)

/-- The error where a text does not start with what is expected: a bracket or a brace is of the wrong
type at once, any other value is read first. -/
def unexpected (expected : Expected) (cs : List Char) : LoadError :=
  match skipBlank cs with
  | [] => .flaw .truncated
  | '[' :: _ => .mismatch (.wrongType .sequence expected)
  | '\x7b' :: _ => .mismatch (.wrongType .map expected)
  | c :: rest =>
    match Json.readScalar c rest with
    | .ok (j, _) => .mismatch (.wrongType (.ofJson j) expected)
    | .error flaw => .flaw flaw

section Outermost

variable {κ : Type} (family : Family κ)

/-- Reads the tag of an outermost node. -/
def readTag (cs : List Char) : Except LoadError (κ × List Char) :=
  match skipBlank cs with
  | '"' :: rest => do
    let (tag, rest) ← ofJson (Json.readQuoted [] rest)
    return (← ofTree (family.ofTag tag), rest)
  | _ => .error (unexpected .tag cs)

/-- Reads the colon and the value of a member of an outermost node. The tag is kept apart from the other members;
`kind` and `acc` hold what was read before, the members last first. -/
def readMember (depth : Nat) (kind : Option κ) (acc : List (String × Json)) (key : String)
    (cs : List Char) : Except LoadError ((Option κ × List (String × Json)) × List Char) :=
  if key = tagKey then
    match kind with
    | some _ => .error (.mismatch (.duplicateField tagKey))
    | none => do
      let (kind, rest) ← readTag family (← ofJson (Json.readColon cs))
      return ((some kind, acc), rest)
  else do
    let (value, rest) ← ofJson (Json.read depth (← ofJson (Json.readColon cs)))
    return ((kind, (key, value) :: acc), rest)

/-- Reads a member of an outermost node and all that follow it. -/
def readMembers (fuel depth : Nat) (kind : Option κ) (acc : List (String × Json)) (cs : List Char) :
    Except LoadError ((κ × Parts) × List Char) :=
  match fuel with
  | 0 => .error (.flaw .malformed)
  | fuel + 1 => do
    let (key, rest) ← ofJson (Json.readName cs)
    let ((kind, acc), rest) ← readMember family depth kind acc key rest
    match skipBlank rest with
    | '\x7d' :: rest =>
      match kind with
      | some kind => .ok ((kind, .members acc.reverse), rest)
      | none => .error (.mismatch (.missingField tagKey))
    | ',' :: rest => readMembers fuel depth kind acc rest
    | [] => .error (.flaw .truncated)
    | _ => .error (.flaw .malformed)

/-- Reads the items after the tag of an outermost node written as an array. -/
def readItems (fuel depth : Nat) (acc : List Json) (cs : List Char) :
    Except LoadError (List Json × List Char) :=
  match fuel with
  | 0 => .error (.flaw .malformed)
  | fuel + 1 =>
    match skipBlank cs with
    | ']' :: rest => .ok (acc.reverse, rest)
    | ',' :: rest => do
      let (item, rest) ← ofJson (Json.read depth rest)
      readItems fuel depth (item :: acc) rest
    | [] => .error (.flaw .truncated)
    | _ => .error (.flaw .malformed)

/-- Reads an outermost node, with `depth` brackets and braces left to open. -/
def readNode (depth : Nat) (cs : List Char) : Except LoadError ((κ × Parts) × List Char) :=
  match skipBlank cs, depth with
  | '[' :: _, 0 | '\x7b' :: _, 0 => .error (.flaw .malformed)
  | '[' :: rest, depth + 1 =>
    match skipBlank rest with
    | ']' :: _ => .error (.mismatch (.missingField tagKey))
    | [] => .error (.flaw .truncated)
    | rest => do
      let (kind, rest) ← readTag family rest
      let (items, rest) ← readItems (rest.length + 1) depth [] rest
      return ((kind, .items items), rest)
  | '\x7b' :: rest, depth + 1 =>
    match skipBlank rest with
    | '\x7d' :: _ => .error (.mismatch (.missingField tagKey))
    | rest => readMembers family (rest.length + 1) depth none [] rest
  | cs, _ => .error (unexpected (.node family.name) cs)

end Outermost

/-- Reads a top-level statement. -/
def readStatement (depth : Nat) (cs : List Char) : Except LoadError (Stmt × List Char) := do
  let ((kind, parts), rest) ← readNode Stmt.family depth cs
  return (← ofTree (stmtOfParts (readExpr Json.nestingLimit) (readStmt Json.nestingLimit) kind parts), rest)

/-- Reads a statement of a list and all that follow it; `acc` holds those before, last first. -/
def readStatements (fuel depth : Nat) (acc : List Stmt) (cs : List Char) :
    Except LoadError (List Stmt × List Char) :=
  match fuel with
  | 0 => .error (.flaw .malformed)
  | fuel + 1 => do
    let (stmt, rest) ← readStatement depth cs
    match skipBlank rest with
    | ']' :: rest => .ok ((stmt :: acc).reverse, rest)
    | ',' :: rest => readStatements fuel depth (stmt :: acc) rest
    | [] => .error (.flaw .truncated)
    | _ => .error (.flaw .malformed)

/-- Reads the list of top-level statements. -/
def readStatementList (depth : Nat) (cs : List Char) : Except LoadError (List Stmt × List Char) :=
  match skipBlank cs, depth with
  | '[' :: _, 0 => .error (.flaw .malformed)
  | '[' :: rest, depth + 1 =>
    match skipBlank rest with
    | ']' :: rest => .ok ([], rest)
    | [] => .error (.flaw .truncated)
    | rest => readStatements (rest.length + 1) depth [] rest
  | cs, _ => .error (unexpected .sequence cs)

/-- The only field of a program. -/
def statementsKey : String := "statements"

/-- The record that a program is. -/
def programSchema : Schema := ⟨"TranslationUnit", [statementsKey]⟩

/-- Reads the colon and the value of a member of a program. Other members than the statements are passed over. -/
def readProgramMember (depth : Nat) (found : Option Program) (key : String) (cs : List Char) :
    Except LoadError (Option Program × List Char) :=
  if key = statementsKey then
    match found with
    | some _ => .error (.mismatch (.duplicateField statementsKey))
    | none => do
      let (statements, rest) ← readStatementList depth (← ofJson (Json.readColon cs))
      return (some statements, rest)
  else do
    let rest ← ofJson (Json.skip (← ofJson (Json.readColon cs)))
    return (found, rest)

/-- Reads a member of a program and all that follow it. -/
def readProgramMembers (fuel depth : Nat) (found : Option Program) (cs : List Char) :
    Except LoadError (Program × List Char) :=
  match fuel with
  | 0 => .error (.flaw .malformed)
  | fuel + 1 => do
    let (key, rest) ← ofJson (Json.readName cs)
    let (found, rest) ← readProgramMember depth found key rest
    match skipBlank rest with
    | '\x7d' :: rest =>
      match found with
      | some statements => .ok (statements, rest)
      | none => .error (.mismatch (.missingField statementsKey))
    | ',' :: rest => readProgramMembers fuel depth found rest
    | [] => .error (.flaw .truncated)
    | _ => .error (.flaw .malformed)

/-- Reads a program written as the array of its one field. -/
def readProgramItem (depth : Nat) (cs : List Char) : Except LoadError (Program × List Char) := do
  let (statements, rest) ← readStatementList depth cs
  match skipBlank rest with
  | ']' :: rest => .ok (statements, rest)
  | [] => .error (.flaw .truncated)
  | _ => .error (.flaw .malformed)

/-- Reads a program at the start of a text. -/
def readProgram (cs : List Char) : Except LoadError (Program × List Char) :=
  match skipBlank cs, Json.nestingLimit with
  | '[' :: rest, depth + 1 =>
    match skipBlank rest with
    | ']' :: _ => .error (.mismatch (.wrongLength 0 (.fields programSchema.name programSchema.fields.length)))
    | [] => .error (.flaw .truncated)
    | rest => readProgramItem depth rest
  | '\x7b' :: rest, depth + 1 =>
    match skipBlank rest with
    | '\x7d' :: _ => .error (.mismatch (.missingField statementsKey))
    | rest => readProgramMembers (rest.length + 1) depth none rest
  | cs, _ => .error (unexpected (.record programSchema.name) cs)

/-- Reads an expression at the start of a text. -/
def readExpression (cs : List Char) : Except LoadError (Expr × List Char) := do
  let ((kind, parts), rest) ← readNode Expr.family Json.nestingLimit cs
  return (← ofTree (exprOfParts (readExpr Json.nestingLimit) kind parts), rest)

/-- Runs a step on a whole text: only blanks may be left. -/
def whole {α : Type} (step : List Char → Except LoadError (α × List Char)) (text : String) :
    Except LoadError α := do
  let (a, rest) ← step text.toList
  if (skipBlank rest).isEmpty then .ok a else .error (.flaw .malformed)

end Load

/-- The program stored in a text. -/
def Program.load (text : String) : Except LoadError Program := Load.whole Load.readProgram text

/-- The expression stored in a text. -/
def Expr.load (text : String) : Except LoadError Expr := Load.whole Load.readExpression text

end TreeWalk
