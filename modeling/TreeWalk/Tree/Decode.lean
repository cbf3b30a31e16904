import TreeWalk.Tree.Kind
import TreeWalk.Tree.Record

/-! Trees from JSON values. A node is a record with a tag: the member `kind` of an object, or the first
item of an array. The tag is settled before the other parts are read. Inside a node a tag may also be
given as its position among the tags. Nodes nest at most as deep as brackets do, so the number of
steps down is bounded by the nesting limit. -/

namespace TreeWalk

section Scalars

def readLine : Json → Except Mismatch Line
  | .integer n =>
    if 0 ≤ n ∧ n < UInt32.size then .ok n.toNat.toUInt32 else .error (.wrongValue (.integer n) .line)
  | j => .error (.wrongType (.ofJson j) .line)

def readInteger : Json → Except Mismatch Int64
  | .integer n =>
    if Int64.minValue.toInt ≤ n ∧ n ≤ Int64.maxValue.toInt then .ok (Int64.ofInt n)
    else .error (.wrongValue (.integer n) .integer)
  | j => .error (.wrongType (.ofJson j) .integer)

/-- The double nearest to an integer of at most sixty-four bits. -/
def nearestDouble (n : Int) : Float :=
  if n < 0 then -(n.natAbs.toUInt64.toFloat) else n.toNat.toUInt64.toFloat

def readDouble : Json → Except Mismatch Float
  | .integer n => .ok (nearestDouble n)
  | .double x => .ok x
  | j => .error (.wrongType (.ofJson j) .double)

def readBoolean : Json → Except Mismatch Bool
  | .bool b => .ok b
  | j => .error (.wrongType (.ofJson j) .boolean)

def readString : Json → Except Mismatch String
  | .string s => .ok s
  | j => .error (.wrongType (.ofJson j) .string)

def readSequence {α : Type} (read : Json → Except Mismatch α) : Json → Except Mismatch (List α)
  | .array js => js.mapM read
  | j => .error (.wrongType (.ofJson j) .sequence)

end Scalars

section Variants

/-- The name of a variant and its payload: a bare name has none. -/
def readVariant (known : List String) (j : Json) : Except Mismatch (String × Option Json) := do
  let (name, payload) ← match j with
    | .string s => .ok (s, none)
    | .object [(key, payload)] => .ok (key, some payload)
    | .object _ => .error (.wrongValue .map .oneMember)
    | j => .error (.wrongType (.ofJson j) .variant)
  if name ∈ known then .ok (name, payload) else .error (.unknownVariant name known)

/-- An empty payload: none at all, null or an empty object. -/
def readNoPayload : Option Json → Except Mismatch Unit
  | none | some .null | some (.object []) => .ok ()
  | some j => .error (.wrongType (.ofJson j) .nothing)

def readPayload {α : Type} (read : Json → Except Mismatch α) : Option Json → Except Mismatch α
  | none => .error (.wrongType .bareVariant .payload)
  | some j => read j

def readTy (j : Json) : Except Mismatch Ty := do
  let (name, payload) ← readVariant (Ty.all.map Ty.tag) j
  readNoPayload payload
  return (Ty.all.find? (·.tag == name)).getD .void

def Value.tags : List String := ["integer", "double", "boolean", "string", "null"]

def readValue (j : Json) : Except Mismatch Value := do
  let (name, payload) ← readVariant Value.tags j
  match name with
  | "integer" => .integer <$> readPayload readInteger payload
  | "double" => .double <$> readPayload readDouble payload
  | "boolean" => .boolean <$> readPayload readBoolean payload
  | "string" => .string <$> readPayload readString payload
  | _ => do
    readNoPayload payload
    return .null

end Variants

section Tags

/-- A family of nodes told apart by their tags. -/
structure Family (κ : Type) where
  name : String
  all : List κ
  tag : κ → String

def Stmt.family : Family StmtKind := ⟨"Stmt", StmtKind.all, StmtKind.tag⟩

def Expr.family : Family ExprKind := ⟨"Expr", ExprKind.all, ExprKind.tag⟩

variable {κ : Type}

def Family.ofTag (family : Family κ) (tag : String) : Except Mismatch κ :=
  match family.all.find? (family.tag · == tag) with
  | some kind => .ok kind
  | none => .error (.unknownVariant tag (family.all.map family.tag))

/-- The kind that a tag inside a node names. -/
def Family.readTag (family : Family κ) : Json → Except Mismatch κ
  | .string s => family.ofTag s
  | .integer (.ofNat n) =>
    match family.all[n]? with
    | some kind => .ok kind
    | none => .error (.wrongValue (.integer n) (.tagIndex family.all.length))
  | j => .error (.wrongType (.ofJson j) .tag)

/-- The member of a node that holds its tag. -/
def tagKey : String := "kind"

/-- The kind of a node and its other parts. -/
def Family.split (family : Family κ) : Json → Except Mismatch (κ × Parts)
  | .object ms =>
    match ms.filter (·.1 == tagKey) with
    | [] => .error (.missingField tagKey)
    | (_, j) :: again => do
      let kind ← family.readTag j
      if again.isEmpty then .ok (kind, .members (ms.filter (·.1 != tagKey)))
      else .error (.duplicateField tagKey)
  | .array [] => .error (.missingField tagKey)
  | .array (j :: js) => do return (← family.readTag j, .items js)
  | j => .error (.wrongType (.ofJson j) (.node family.name))

end Tags

section Schemas

def ExprKind.schema : ExprKind → Schema
  | .literal => ⟨"Literal", ["value", "line"]⟩
  | .grouping => ⟨"Grouping", ["expression", "line"]⟩
  | .unary => ⟨"Unary", ["operator", "operand", "line"]⟩
  | .binary => ⟨"Binary", ["left", "operator", "right", "line"]⟩
  | .logical => ⟨"Logical", ["left", "operator", "right", "line"]⟩
  | .access => ⟨"VariableAccess", ["name", "line"]⟩
  | .assign => ⟨"Assignment", ["name", "value", "line"]⟩
  | .call => ⟨"Call", ["callee", "arguments", "line"]⟩

def StmtKind.schema : StmtKind → Schema
  | .function => ⟨"FunctionDecl", ["name", "return_type", "parameters", "body", "line"]⟩
  | .block => ⟨"Block", ["statements", "line"]⟩
  | .expression => ⟨"ExpressionStmt", ["expression", "line"]⟩
  | .branch => ⟨"If", ["condition", "then_branch", "else_branch", "line"]⟩
  | .print => ⟨"Print", ["expression", "line"]⟩
  | .declare => ⟨"Variable", ["name", "var_type", "initializer", "line"]⟩
  | .loop => ⟨"While", ["condition", "body", "line"]⟩
  | .ret => ⟨"Return", ["value", "line"]⟩

def Parameter.schema : Schema := ⟨"Parameter", ["name", "param_type", "line"]⟩

end Schemas

/-- An expression from its parts, `child` reading the expressions in it. -/
def exprOfParts (child : Json → Except Mismatch Expr) (kind : ExprKind) (parts : Parts) :
    Except Mismatch Expr :=
  let s := kind.schema
  let line := s.field parts "line" readLine
  s.finish parts <| match kind with
  | .literal => .literal <$> s.field parts "value" readValue <*> line
  | .grouping => .grouping <$> s.field parts "expression" child <*> line
  | .unary => .unary <$> s.field parts "operator" readString <*> s.field parts "operand" child <*> line
  | .binary =>
    .binary <$> s.field parts "left" child <*> s.field parts "operator" readString <*>
      s.field parts "right" child <*> line
  | .logical =>
    .logical <$> s.field parts "left" child <*> s.field parts "operator" readString <*>
      s.field parts "right" child <*> line
  | .access => .access <$> s.field parts "name" readString <*> line
  | .assign => .assign <$> s.field parts "name" readString <*> s.field parts "value" child <*> line
  | .call =>
    .call <$> s.field parts "callee" readString <*> s.field parts "arguments" (readSequence child) <*> line

/-- An expression, at most `fuel` nodes deep. -/
def readExpr : Nat → Json → Except Mismatch Expr
  | 0, j => .error (.wrongType (.ofJson j) (.node Expr.family.name))
  | fuel + 1, j => do
    let (kind, parts) ← Expr.family.split j
    exprOfParts (readExpr fuel) kind parts

def readParameter (j : Json) : Except Mismatch Parameter := do
  let s := Parameter.schema
  let parts ← s.parts j
  s.finish parts (Parameter.mk <$> s.field parts "name" readString <*> s.field parts "param_type" readTy <*>
    s.field parts "line" readLine)

/-- The statements and the line of a body. -/
def readBody (child : Json → Except Mismatch Stmt) (j : Json) : Except Mismatch (List Stmt × Line) := do
  let s := StmtKind.block.schema
  let parts ← s.parts j
  s.finish parts (Prod.mk <$> s.field parts "statements" (readSequence child) <*> s.field parts "line" readLine)

/-- A statement from its parts, `expr` and `child` reading the expressions and statements in it. -/
def stmtOfParts (expr : Json → Except Mismatch Expr) (child : Json → Except Mismatch Stmt)
    (kind : StmtKind) (parts : Parts) : Except Mismatch Stmt :=
  let s := kind.schema
  let line := s.field parts "line" readLine
  s.finish parts <| match kind with
  | .function =>
    (fun name type parameters body => .function name type parameters body.1 body.2) <$>
      s.field parts "name" readString <*> s.field parts "return_type" readTy <*>
      s.field parts "parameters" (readSequence readParameter) <*> s.field parts "body" (readBody child) <*> line
  | .block => .block <$> s.field parts "statements" (readSequence child) <*> line
  | .expression => .expression <$> s.field parts "expression" expr <*> line
  | .branch =>
    .branch <$> s.field parts "condition" expr <*> s.field parts "then_branch" child <*>
      s.optional parts "else_branch" child <*> line
  | .print => .print <$> s.field parts "expression" expr <*> line
  | .declare =>
    .declare <$> s.field parts "name" readString <*> s.field parts "var_type" readTy <*>
      s.optional parts "initializer" expr <*> line
  | .loop =>
    (fun condition body => .loop condition body.1 body.2) <$> s.field parts "condition" expr <*>
      s.field parts "body" (readBody child) <*> line
  | .ret => .ret <$> s.optional parts "value" expr <*> line

/-- A statement, at most `fuel` nodes deep. -/
def readStmt : Nat → Json → Except Mismatch Stmt
  | 0, j => .error (.wrongType (.ofJson j) (.node Stmt.family.name))
  | fuel + 1, j => do
    let (kind, parts) ← Stmt.family.split j
    stmtOfParts (readExpr fuel) (readStmt fuel) kind parts

end TreeWalk
