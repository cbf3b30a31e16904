import TreeWalk.Proofs.Source.Tokens

/-! Reading the tokens of an expression. What the text of an expression says is its skeleton: the tree
without lines and groupings, in which a negative literal is the negation of a positive one. A reader
takes one token at a time. It keeps a stack of frames, one for each operator, parenthesis, call or
assignment whose last operand is not complete, and it ends operators only when a token comes that binds
looser. So after the tokens of an expression the reader may still have some operators of it open, and
the invariant is about the reader once they are ended. -/

namespace TreeWalk

open Printer

/-- An expression without lines, groupings and negative literals. -/
inductive Skeleton where
  | number (n : Nat)
  | double (x : Float)
  | boolean (b : Bool)
  | string (s : String)
  | null
  | unary (op : String) (operand : Skeleton)
  | binary (left : Skeleton) (op : String) (right : Skeleton)
  | logical (left : Skeleton) (op : String) (right : Skeleton)
  | access (name : String)
  | assign (name : String) (value : Skeleton)
  | call (callee : String) (arguments : List Skeleton)

def Value.skeleton : Value → Skeleton
  | .integer n =>
    if n.toInt < 0 then .unary "-" (.number n.toInt.natAbs) else .number n.toInt.toNat
  | .double x => .double x
  | .boolean b => .boolean b
  | .string s => .string s
  | .null => .null

mutual

/-- Drops lines and groupings, and writes a negative literal as the negation of a positive one. -/
def Expr.skeleton : Expr → Skeleton
  | .literal v _ => v.skeleton
  | .grouping e _ => e.skeleton
  | .unary op e _ => .unary op e.skeleton
  | .binary a op b _ => .binary a.skeleton op b.skeleton
  | .logical a op b _ => .logical a.skeleton op b.skeleton
  | .access x _ => .access x
  | .assign x e _ => .assign x e.skeleton
  | .call f es _ => .call f (Expr.skeletons es)

def Expr.skeletons : List Expr → List Skeleton
  | [] => []
  | e :: es => e.skeleton :: Expr.skeletons es

end

namespace Source

/-- Something whose last operand is not complete. -/
inductive Frame where
  | group
  | call (callee : String) (done : List Skeleton)
  | assign (name : String)
  | unary (op : String)
  | infixed (left : Skeleton) (op : String)

/-- A reader before an operand, or after one, or at a token that no expression has there. -/
inductive Reader where
  | due (frames : List Frame)
  | after (frames : List Frame) (t : Skeleton)
  | stuck

def join (left : Skeleton) (op : String) (right : Skeleton) : Skeleton :=
  if op ∈ logicalOperators then .logical left op right else .binary left op right

def wordSkeleton (w : String) : Skeleton :=
  if w = "true" then .boolean true
  else if w = "false" then .boolean false
  else if w = "null" then .null
  else .access w

/-- Ends the innermost frames as long as they bind at least as tightly as `least`. -/
def close (least : Nat) : List Frame → Skeleton → List Frame × Skeleton
  | .unary op :: fs, t => close least fs (.unary op t)
  | .infixed left op :: fs, t =>
    if least ≤ opPrecedence op then close least fs (join left op t) else (.infixed left op :: fs, t)
  | .assign x :: fs, t =>
    if least = assignPrecedence then close least fs (.assign x t) else (.assign x :: fs, t)
  | .group :: fs, t => (.group :: fs, t)
  | .call f done :: fs, t => (.call f done :: fs, t)
  | [], t => ([], t)

namespace Reader

/-- Ends what binds at least as tightly as `least`. -/
def settle (least : Nat) : Reader → Reader
  | .due fs => .due fs
  | .after fs t => .after (close least fs t).1 (close least fs t).2
  | .stuck => .stuck

/-- Reads a mark where an operand is due. -/
def openMark (fs : List Frame) (m : String) : Reader :=
  if m = "(" then .due (.group :: fs)
  else if m = ")" then
    match fs with
    | .call f [] :: fs => .after fs (.call f [])
    | _ => .stuck
  else .due (.unary m :: fs)

/-- Ends an argument, after which another one is due. -/
def nextArgument : Reader → Reader
  | .after (.call f done :: fs) t => .due (.call f (done ++ [t]) :: fs)
  | _ => .stuck

/-- Ends a group or a call. -/
def closeParenthesis : Reader → Reader
  | .after (.group :: fs) t => .after fs t
  | .after (.call f done :: fs) t => .after fs (.call f (done ++ [t]))
  | _ => .stuck

/-- Takes what was read as the left operand of an operator. -/
def leftOperand (op : String) : Reader → Reader
  | .after fs t => .due (.infixed t op :: fs)
  | _ => .stuck

/-- Reads a mark after an operand. -/
def nextMark (fs : List Frame) (t : Skeleton) (m : String) : Reader :=
  if m = "(" then
    match t with
    | .access f => .due (.call f [] :: fs)
    | _ => .stuck
  else if m = "=" then
    match t with
    | .access x => .due (.assign x :: fs)
    | _ => .stuck
  else if m = "," then (settle 0 (.after fs t)).nextArgument
  else if m = ")" then (settle 0 (.after fs t)).closeParenthesis
  else (settle (opPrecedence m) (.after fs t)).leftOperand m

/-- Reads a token. -/
def step : Reader → Token → Reader
  | .due fs, .word w => .after fs (wordSkeleton w)
  | .due fs, .number n => .after fs (.number n)
  | .due fs, .quoted s => .after fs (.string s)
  | .due fs, .mark m => openMark fs m
  | .after fs t, .mark m => nextMark fs t m
  | _, _ => .stuck

def run (r : Reader) (ts : List Token) : Reader := ts.foldl step r

@[simp] theorem run_nil (r : Reader) : r.run [] = r := rfl

@[simp] theorem run_cons (r : Reader) (k : Token) (ts : List Token) :
    r.run (k :: ts) = (r.step k).run ts := rfl

theorem run_append (r : Reader) (ts us : List Token) : r.run (ts ++ us) = (r.run ts).run us :=
  List.foldl_append

end Reader

/-- The skeleton that a list of tokens is the text of. -/
def read (ts : List Token) : Option Skeleton :=
  match (Reader.run (.due []) ts).settle assignPrecedence with
  | .after [] t => some t
  | _ => none

end Source

end TreeWalk
