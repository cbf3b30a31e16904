import Mathlib.Algebra.Group.Int.Defs
import TreeWalk.Folder

/-! A reference semantics of expressions, given by rules and not by a procedure. Evaluation goes from
left to right and leaves out the right operand of a logical operator whose left operand settles it. What
variables, assignments and calls mean is left open: an interpretation says, for any such expression and
any state of the world, which value it has and how the world changes, or that it fails. Integers are
exact, so an operation has a result only if some sixty-four bit integer is that result. Where no rule
applies, evaluation fails. -/

namespace TreeWalk

/-! ### Operations on values -/

/-- The value of an operator before its operand. -/
inductive UnaryRule : String → Value → Value → Prop
  | negate {a b : Int64} (h : b.toInt = -a.toInt) : UnaryRule "-" (.integer a) (.integer b)
  | negateDouble (x : Float) : UnaryRule "-" (.double x) (.double (-x))
  | complement (b : Bool) : UnaryRule "!" (.boolean b) (.boolean !b)

/-- Exact arithmetic. Division cuts off toward zero; it is not defined for the divisor zero, nor where
the quotient is the one that sixty-four bits cannot hold. -/
inductive IntegerRule : String → Int → Int → Int → Prop
  | add (a b : Int) : IntegerRule "+" a b (a + b)
  | sub (a b : Int) : IntegerRule "-" a b (a - b)
  | mul (a b : Int) : IntegerRule "*" a b (a * b)
  | div {a b : Int} (h₀ : b ≠ 0) (h : ¬(a = -2 ^ 63 ∧ b = -1)) : IntegerRule "/" a b (a.tdiv b)
  | rem {a b : Int} (h₀ : b ≠ 0) (h : ¬(a = -2 ^ 63 ∧ b = -1)) : IntegerRule "%" a b (a.tmod b)

inductive DoubleRule : String → Float → Float → Float → Prop
  | add (x y : Float) : DoubleRule "+" x y (x + y)
  | sub (x y : Float) : DoubleRule "-" x y (x - y)
  | mul (x y : Float) : DoubleRule "*" x y (x * y)
  | div {x y : Float} (h : (y == 0) = false) : DoubleRule "/" x y (x / y)
  | rem {x y : Float} (h : (y == 0) = false) : DoubleRule "%" x y (Decimal.remainder x y)

/-- Whether two values of one type are equal. -/
inductive EqualRule : Value → Value → Bool → Prop
  | integer (a b : Int64) : EqualRule (.integer a) (.integer b) (decide (a = b))
  | double (x y : Float) : EqualRule (.double x) (.double y) (x == y)
  | boolean (a b : Bool) : EqualRule (.boolean a) (.boolean b) (decide (a = b))
  | string (s t : String) : EqualRule (.string s) (.string t) (decide (s = t))
  | null : EqualRule .null .null true

/-- The order of two integers, of two doubles that have one, or of two strings. -/
inductive OrderRule : Value → Value → Ordering → Prop
  | integerLess {a b : Int64} (h : a.toInt < b.toInt) : OrderRule (.integer a) (.integer b) .lt
  | integerSame {a b : Int64} (h : a.toInt = b.toInt) : OrderRule (.integer a) (.integer b) .eq
  | integerMore {a b : Int64} (h : b.toInt < a.toInt) : OrderRule (.integer a) (.integer b) .gt
  | doubleLess {x y : Float} (h : x < y) : OrderRule (.double x) (.double y) .lt
  | doubleSame {x y : Float} (h : x == y) : OrderRule (.double x) (.double y) .eq
  | doubleMore {x y : Float} (h : y < x) : OrderRule (.double x) (.double y) .gt
  | stringLess {s t : String} (h : s < t) : OrderRule (.string s) (.string t) .lt
  | stringSame {s t : String} (h : s = t) : OrderRule (.string s) (.string t) .eq
  | stringMore {s t : String} (h : t < s) : OrderRule (.string s) (.string t) .gt

/-- The value of an operator between two operands. -/
inductive BinaryRule : String → Value → Value → Value → Prop
  | integer {op : String} {a b c : Int64} (h : IntegerRule op a.toInt b.toInt c.toInt) :
    BinaryRule op (.integer a) (.integer b) (.integer c)
  | double {op : String} {x y z : Float} (h : DoubleRule op x y z) :
    BinaryRule op (.double x) (.double y) (.double z)
  | concat (s t : String) : BinaryRule "+" (.string s) (.string t) (.string (s ++ t))
  | equal {a b : Value} {r : Bool} (h : EqualRule a b r) : BinaryRule "==" a b (.boolean r)
  | unequal {a b : Value} {r : Bool} (h : EqualRule a b r) : BinaryRule "!=" a b (.boolean !r)
  | less {a b : Value} {o : Ordering} (h : OrderRule a b o) :
    BinaryRule "<" a b (.boolean (o = .lt))
  | atMost {a b : Value} {o : Ordering} (h : OrderRule a b o) :
    BinaryRule "<=" a b (.boolean (o ≠ .gt))
  | more {a b : Value} {o : Ordering} (h : OrderRule a b o) :
    BinaryRule ">" a b (.boolean (o = .gt))
  | atLeast {a b : Value} {o : Ordering} (h : OrderRule a b o) :
    BinaryRule ">=" a b (.boolean (o ≠ .lt))

/-! ### Evaluation -/

/-- The truth value of the left operand with which a logical operator needs no right one. -/
def settledBy (op : String) : Option Bool :=
  if op = "&&" then some false else if op = "||" then some true else none

/-- What variables, assignments and calls do to a world of type `ω`. -/
abbrev Interpretation (ω : Type) := Expr → ω → Option (Value × ω)

/-- Variables, assignments and calls. -/
def Expr.isOpen : Expr → Bool
  | .access .. | .assign .. | .call .. => true
  | _ => false

/-- In the world `w` the expression has the value `v` and leaves the world `w'`; `reached` are the
variables, assignments and calls that were evaluated on the way. -/
inductive Evaluates {ω : Type} (meaning : Interpretation ω) :
    Expr → (w : ω) → (v : Value) → (w' : ω) → (reached : List Expr) → Prop
  | literal {v l w} : Evaluates meaning (.literal v l) w v w []
  | grouping {e l w v w' r} (he : Evaluates meaning e w v w' r) :
    Evaluates meaning (.grouping e l) w v w' r
  | unary {op e l w a v w' r} (he : Evaluates meaning e w a w' r) (hv : UnaryRule op a v) :
    Evaluates meaning (.unary op e l) w v w' r
  | binary {a op b l w x w' y w'' v r r'} (ha : Evaluates meaning a w x w' r)
    (hb : Evaluates meaning b w' y w'' r') (hv : BinaryRule op x y v) :
    Evaluates meaning (.binary a op b l) w v w'' (r ++ r')
  | short {a op b l w s w' r} (hs : settledBy op = some s)
    (ha : Evaluates meaning a w (.boolean s) w' r) :
    Evaluates meaning (.logical a op b l) w (.boolean s) w' r
  | long {a op b l w s w' c w'' r r'} (hs : settledBy op = some s)
    (ha : Evaluates meaning a w (.boolean !s) w' r) (hb : Evaluates meaning b w' (.boolean c) w'' r') :
    Evaluates meaning (.logical a op b l) w (.boolean c) w'' (r ++ r')
  | reach {e w v w'} (he : e.isOpen) (hv : meaning e w = some (v, w')) :
    Evaluates meaning e w v w' [e]

end TreeWalk
