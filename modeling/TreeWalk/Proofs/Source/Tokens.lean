import TreeWalk.Proofs.Source.Scanner
import TreeWalk.Proofs.Source.Spelling

/-! The tokens of an expression. An expression is well formed if its operators are those of the
language, its names are identifiers and no literal is a double. The text of a well-formed expression
spells its tokens, although most of them are not separated by blanks: what follows an operand starts
with a break, and no operand starts with the second half of a mark. -/

namespace TreeWalk

open Source Printer

/-! ### Well-formed expressions -/

/-- The words that are constants. -/
def constantWords : List String := ["true", "false", "null"]

def unaryOperators : List String := ["-", "!", "+"]

def binaryOperators : List String := ["==", "!=", "<", "<=", ">", ">=", "+", "-", "*", "/", "%"]

def logicalOperators : List String := ["&&", "||"]

/-- A letter or underscore, then letters, underscores and digits, and not a constant. -/
def isIdentifier (name : String) : Bool :=
  match name.toList with
  | [] => false
  | c :: cs => isLetter c && cs.all isWordChar && !constantWords.contains name

def Value.isDouble : Value → Bool
  | .double _ => true
  | _ => false

mutual

/-- The operators are known, the names are identifiers and no literal is a double. -/
def Expr.isWellFormed : Expr → Bool
  | .literal v _ => !v.isDouble
  | .grouping e _ => e.isWellFormed
  | .unary op e _ => unaryOperators.contains op && e.isWellFormed
  | .binary a op b _ => binaryOperators.contains op && a.isWellFormed && b.isWellFormed
  | .logical a op b _ => logicalOperators.contains op && a.isWellFormed && b.isWellFormed
  | .access x _ => isIdentifier x
  | .assign x e _ => isIdentifier x && e.isWellFormed
  | .call f es _ => isIdentifier f && Expr.areWellFormed es

def Expr.areWellFormed : List Expr → Bool
  | [] => true
  | e :: es => e.isWellFormed && Expr.areWellFormed es

end

theorem Expr.areWellFormed_iff (es : List Expr) :
    Expr.areWellFormed es ↔ ∀ e ∈ es, e.isWellFormed := by
  induction es with
  | nil => simp [Expr.areWellFormed]
  | cons e es ih => simp [Expr.areWellFormed, ih]

/-! ### Tokens -/

/-- The tokens of a literal; a double, which is no token, is left out. -/
def Value.tokens : Value → List Token
  | .integer n =>
    if n.toInt < 0 then [.mark "-", .number n.toInt.natAbs] else [.number n.toInt.toNat]
  | .double _ => []
  | .boolean true => [.word "true"]
  | .boolean false => [.word "false"]
  | .string s => [.quoted s]
  | .null => [.word "null"]

namespace Source

def enclose (ts : List Token) : List Token := .mark "(" :: (ts ++ [.mark ")"])

/-- The tokens of an operand whose place requires at least `least`. -/
def fitTokens (e : Expr) (least : Nat) (ts : List Token) : List Token :=
  if precedence e < least then enclose ts else ts

end Source

mutual

def Expr.tokens : Expr → List Token
  | .literal v _ => v.tokens
  | .grouping e _ => enclose e.tokens
  | .unary op e _ => .mark op :: fitTokens e unaryPrecedence e.tokens
  | .binary a op b _ | .logical a op b _ =>
    fitTokens a (opPrecedence op) a.tokens ++
      .mark op :: fitTokens b (opPrecedence op + 1) b.tokens
  | .access x _ => [.word x]
  | .assign x e _ => .word x :: .mark "=" :: e.tokens
  | .call f es _ => .word f :: .mark "(" :: Expr.argumentTokens es

/-- The tokens of the arguments of a call and of the parenthesis that ends it. -/
def Expr.argumentTokens : List Expr → List Token
  | [] => [.mark ")"]
  | e :: es => e.tokens ++ Expr.laterTokens es

/-- The tokens of the arguments that come after another one. -/
def Expr.laterTokens : List Expr → List Token
  | [] => [.mark ")"]
  | e :: es => .mark "," :: (e.tokens ++ Expr.laterTokens es)

end

namespace Source

/-! ### How the text of an operand starts -/

/-- The text starts with a character that is no second half of a mark. -/
def Opens (cs : List Char) : Prop := ∃ c rest, cs = c :: rest ∧ c ≠ '=' ∧ c ≠ '>'

theorem Opens.append {cs : List Char} (h : Opens cs) (ds : List Char) : Opens (cs ++ ds) := by
  obtain ⟨c, rest, rfl, hc⟩ := h
  exact ⟨c, rest ++ ds, rfl, hc⟩

/-- A sign or a negation does not go on into an operand. -/
theorem Opens.not_continues {cs : List Char} (h : Opens cs) {a : Char}
    (ha : a = '-' ∨ a = '!' ∨ a = '+') : ∀ c ∈ cs.head?, continues a c = false := by
  obtain ⟨c, rest, rfl, h1, h2⟩ := h
  rintro d ⟨⟩
  rcases ha with rfl | rfl | rfl <;> simp [continues, h1, h2]

theorem opens_of_isIdentifier {x : String} (h : isIdentifier x) : Opens x.toList := by
  unfold isIdentifier at h
  split at h
  · simp at h
  · next c cs hx =>
    simp only [Bool.and_eq_true] at h
    refine ⟨c, cs, hx, ?_, ?_⟩
    · rintro rfl; simp [isLetter] at h
    · rintro rfl; simp [isLetter] at h

theorem opens_toDigits (n : Nat) : Opens (Nat.toDigits 10 n) := by
  cases hcs : Nat.toDigits 10 n with
  | nil => exact absurd hcs Nat.toDigits_ne_nil
  | cons c cs =>
    have hd : c.isDigit := Nat.isDigit_of_mem_toDigits (b := 10) (n := n) (by decide) (by decide) (by simp [hcs])
    refine ⟨c, cs, rfl, ?_, ?_⟩
    · rintro rfl; simp at hd
    · rintro rfl; simp at hd

theorem toList_parenthesize (text : String) :
    (parenthesize text).toList = '(' :: (text.toList ++ [')']) := by
  simp [parenthesize]

theorem Opens.fit {e : Expr} (h : Opens (spell e).toList) (least : Nat) :
    Opens (fit e least (spell e)).toList := by
  unfold Printer.fit
  split_ifs
  · rw [toList_parenthesize]
    exact ⟨'(', _, rfl, by decide, by decide⟩
  · exact h

theorem opens_display (v : Value) (h : v.isDouble = false) : Opens v.display.toList := by
  cases v with
  | integer n =>
    simp only [Value.display, Value.displayInt, String.toList_ofList]
    split_ifs
    · exact ⟨'-', _, rfl, by decide, by decide⟩
    · exact opens_toDigits _
  | double x => simp [Value.isDouble] at h
  | boolean b => cases b <;> exact ⟨_, _, rfl, by decide, by decide⟩
  | string s =>
    simp only [Value.display, Value.displayString, String.toList_ofList]
    exact ⟨'"', _, rfl, by decide, by decide⟩
  | null => exact ⟨_, _, rfl, by decide, by decide⟩

theorem opens_spell (e : Expr) (h : e.isWellFormed) : Opens (spell e).toList := by
  induction e using Expr.induct with
  | literal v l => exact opens_display v (by simpa [Expr.isWellFormed] using h)
  | grouping e l ih =>
    rw [spell, toList_parenthesize]
    exact ⟨'(', _, rfl, by decide, by decide⟩
  | unary op e l ih =>
    simp only [Expr.isWellFormed, unaryOperators, Bool.and_eq_true, List.contains_eq_mem,
      decide_eq_true_eq, List.mem_cons, List.not_mem_nil, or_false] at h
    simp only [spell, String.toList_append, List.append_assoc]
    obtain ⟨rfl | rfl | rfl, -⟩ := h <;> exact ⟨_, _, rfl, by decide, by decide⟩
  | binary a op b l iha ihb =>
    simp only [Expr.isWellFormed, Bool.and_eq_true] at h
    simp only [spell, String.toList_append, List.append_assoc]
    exact ((iha h.1.2).fit _).append _
  | logical a op b l iha ihb =>
    simp only [Expr.isWellFormed, Bool.and_eq_true] at h
    simp only [spell, String.toList_append, List.append_assoc]
    exact ((iha h.1.2).fit _).append _
  | access x l => exact opens_of_isIdentifier h
  | assign x e l ih =>
    simp only [Expr.isWellFormed, Bool.and_eq_true] at h
    simp only [spell, String.toList_append, List.append_assoc]
    exact (opens_of_isIdentifier h.1).append _
  | call f es l ih =>
    simp only [Expr.isWellFormed, Bool.and_eq_true] at h
    simp only [spell, String.toList_append]
    exact (opens_of_isIdentifier h.1).append _

/-! ### The text spells the tokens -/

theorem spells_of_isIdentifier {x : String} (h : isIdentifier x) : Spells x.toList [.word x] := by
  unfold isIdentifier at h
  split at h
  · simp at h
  · next c cs hx =>
    simp only [Bool.and_eq_true, List.all_eq_true] at h
    have hs := spells_word h.1.1 h.1.2
    rwa [← hx, String.ofList_toList] at hs

theorem spells_operator {op : String} (h : op ∈ binaryOperators ++ logicalOperators) :
    Spells op.toList [.mark op] := by
  simp only [binaryOperators, logicalOperators, List.cons_append, List.nil_append, List.mem_cons,
    List.not_mem_nil, or_false] at h
  rcases h with rfl | rfl | rfl | rfl | rfl | rfl | rfl | rfl | rfl | rfl | rfl | rfl | rfl <;>
    exact fun before => rfl

theorem spells_parenthesis : Spells [')'] [.mark ")"] := fun _ => rfl

theorem Spells.parenthesize {text : String} {ts : List Token} (h : Spells text.toList ts) :
    Spells (parenthesize text).toList (enclose ts) := by
  rw [toList_parenthesize]
  refine Spells.mark_cons (fun _ => rfl) (h.append spells_parenthesis ?_) ?_
  · rintro c ⟨⟩; decide
  · intro c _; simp [continues]

theorem Spells.fit {e : Expr} (h : Spells (spell e).toList e.tokens) (least : Nat) :
    Spells (fit e least (spell e)).toList (fitTokens e least e.tokens) := by
  unfold Printer.fit fitTokens
  split_ifs
  · exact h.parenthesize
  · exact h

theorem spells_display (v : Value) (h : v.isDouble = false) : Spells v.display.toList v.tokens := by
  cases v with
  | integer n =>
    simp only [Value.display, Value.displayInt, String.toList_ofList, Value.tokens]
    split_ifs
    · exact Spells.mark_cons (fun _ => rfl) (spells_number _)
        ((opens_toDigits _).not_continues (by simp))
    · exact spells_number _
  | double x => simp [Value.isDouble] at h
  | boolean b => cases b <;> exact fun _ => rfl
  | string s => exact spells_displayString s
  | null => exact fun _ => rfl

/-- An operator before its operand, with or without a blank between them. -/
theorem spells_unary {op text : String} {ts : List Token} (hop : op ∈ unaryOperators)
    (ht : Spells text.toList ts) (ho : Opens text.toList) :
    Spells (op ++ separator op text ++ text).toList (.mark op :: ts) := by
  have hsep : separator op text = "" ∨ separator op text = " " := by
    unfold separator
    split <;> (try split_ifs) <;> simp
  have hsign : ∀ a, a = '-' ∨ a = '!' ∨ a = '+' → ∀ before, Scanner.start before a = ⟨before, .mark a⟩ := by
    rintro a (rfl | rfl | rfl) before <;> rfl
  have hplain : ∀ a, a = '-' ∨ a = '!' ∨ a = '+' →
      Spells (a :: text.toList) (.mark (String.ofList [a]) :: ts) := fun a ha =>
    Spells.mark_cons (hsign a ha) ht (ho.not_continues ha)
  have hblank : ∀ a, a = '-' ∨ a = '!' ∨ a = '+' →
      Spells (a :: ' ' :: text.toList) (.mark (String.ofList [a]) :: ts) := fun a ha =>
    Spells.mark_cons (hsign a ha) ht.blank (by rintro c ⟨⟩; simp [continues])
  simp only [unaryOperators, List.mem_cons, List.not_mem_nil, or_false] at hop
  rcases hsep with hs | hs <;> rw [hs] <;> simp only [String.toList_append, List.append_assoc]
  · rcases hop with rfl | rfl | rfl
    · exact hplain '-' (by simp)
    · exact hplain '!' (by simp)
    · exact hplain '+' (by simp)
  · rcases hop with rfl | rfl | rfl
    · exact hblank '-' (by simp)
    · exact hblank '!' (by simp)
    · exact hblank '+' (by simp)

theorem spells_infixed {left op right : String} {ts us : List Token}
    (hop : op ∈ binaryOperators ++ logicalOperators) (hl : Spells left.toList ts)
    (hr : Spells right.toList us) :
    Spells (left ++ " " ++ op ++ " " ++ right).toList (ts ++ .mark op :: us) := by
  simp only [String.toList_append, List.append_assoc]
  have hrest : Spells (op.toList ++ ' ' :: right.toList) ([.mark op] ++ us) :=
    (spells_operator hop).append hr.blank (by rintro c ⟨⟩; rfl)
  exact hl.append hrest.blank (by rintro c ⟨⟩; rfl)

/-- The arguments of a call after the first, up to the parenthesis that ends it. -/
theorem spells_arguments (e : Expr) (es : List Expr)
    (h : ∀ a ∈ e :: es, Spells (spell a).toList a.tokens) :
    Spells ((String.intercalate ", " (spellList (e :: es))).toList ++ [')'])
      (Expr.argumentTokens (e :: es)) := by
  have he := h e (by simp)
  induction es generalizing e with
  | nil =>
    simp only [spellList, String.intercalate_singleton]
    exact he.append spells_parenthesis (by rintro c ⟨⟩; rfl)
  | cons e' es ih =>
    have hrest := ih e' (fun a ha => h a (by simp [List.mem_cons.1 ha])) (h e' (by simp))
    simp only [spellList, String.intercalate_cons_cons, String.toList_append, List.append_assoc]
      at hrest ⊢
    exact he.append (Spells.mark_cons (fun _ => rfl) hrest.blank (by rintro c ⟨⟩; rfl))
      (by rintro c ⟨⟩; rfl)

theorem spells_call {f : String} {es : List Expr} (hf : isIdentifier f)
    (h : ∀ a ∈ es, Spells (spell a).toList a.tokens) :
    Spells (f ++ parenthesize (String.intercalate ", " (spellList es))).toList
      (.word f :: .mark "(" :: Expr.argumentTokens es) := by
  simp only [String.toList_append, toList_parenthesize]
  refine (spells_of_isIdentifier hf).append (Spells.mark_cons (fun _ => rfl) ?_ ?_) ?_
  · cases es with
    | nil => exact spells_parenthesis
    | cons e es => exact spells_arguments e es h
  · intro c _; simp [continues]
  · rintro c ⟨⟩; rfl

/-- The text of a well-formed expression spells its tokens. -/
theorem spells_spell (e : Expr) (h : e.isWellFormed) : Spells (spell e).toList e.tokens := by
  induction e using Expr.induct with
  | literal v l => exact spells_display v (by simpa [Expr.isWellFormed] using h)
  | grouping e l ih => exact (ih h).parenthesize
  | unary op e l ih =>
    simp only [Expr.isWellFormed, Bool.and_eq_true, List.contains_eq_mem, decide_eq_true_eq] at h
    exact spells_unary h.1 ((ih h.2).fit _) ((opens_spell e h.2).fit _)
  | binary a op b l iha ihb =>
    simp only [Expr.isWellFormed, Bool.and_eq_true, List.contains_eq_mem, decide_eq_true_eq] at h
    exact spells_infixed (List.mem_append_left _ h.1.1) ((iha h.1.2).fit _) ((ihb h.2).fit _)
  | logical a op b l iha ihb =>
    simp only [Expr.isWellFormed, Bool.and_eq_true, List.contains_eq_mem, decide_eq_true_eq] at h
    exact spells_infixed (List.mem_append_right _ h.1.1) ((iha h.1.2).fit _) ((ihb h.2).fit _)
  | access x l => exact spells_of_isIdentifier h
  | assign x e l ih =>
    simp only [Expr.isWellFormed, Bool.and_eq_true] at h
    have he : Spells ('=' :: ' ' :: (spell e).toList) (.mark "=" :: e.tokens) :=
      Spells.mark_cons (fun _ => rfl) (ih h.2).blank (by rintro c ⟨⟩; rfl)
    simp only [spell, String.toList_append, List.append_assoc]
    exact (spells_of_isIdentifier h.1).append he.blank (by rintro c ⟨⟩; rfl)
  | call f es l ih =>
    simp only [Expr.isWellFormed, Bool.and_eq_true, Expr.areWellFormed_iff] at h
    exact spells_call h.1 fun a ha => ih a ha (h.2 a ha)

end Source

end TreeWalk
