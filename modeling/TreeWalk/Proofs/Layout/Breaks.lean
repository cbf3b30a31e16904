import TreeWalk.Proofs.Layout.Lines
import TreeWalk.Walk

/-! Line breaks in printed text. Names and operators are written as they stand in the tree, and every
other part of a line is free of line breaks: numbers are digits, a point and a sign, and a line break in a
string literal is escaped. So a line is broken only by a name or an operator with a line break in it. -/

namespace TreeWalk

/-! ### Words of a tree -/

/-- The names and operators that an expression holds beside its operands. -/
def Expr.words : Expr → List String
  | .literal _ _ | .grouping _ _ => []
  | .unary op _ _ | .binary _ op _ _ | .logical _ op _ _ => [op]
  | .access x _ | .assign x _ _ | .call x _ _ => [x]

/-- The names that a statement itself declares. -/
def Stmt.words : Stmt → List String
  | .function x _ ps _ _ _ => x :: ps.map Parameter.name
  | .declare x _ _ _ => [x]
  | _ => []

def Node.words : Node → List String
  | .stmt s => s.words
  | .body _ _ => []
  | .expr e => e.words

/-- All names and operators of a program. -/
def Program.words (u : Program) : List String := (Stmt.walkList u).flatMap Node.words

/-! ### Texts -/

/-- The text has no line break. -/
def Unbroken (text : String) : Prop := '\n' ∉ text.toList

instance (text : String) : Decidable (Unbroken text) :=
  inferInstanceAs (Decidable ('\n' ∉ text.toList))

namespace Unbroken

theorem append {s t : String} (hs : Unbroken s) (ht : Unbroken t) : Unbroken (s ++ t) := by
  simpa [Unbroken] using ⟨hs, ht⟩

theorem ofList {cs : List Char} (h : '\n' ∉ cs) : Unbroken (String.ofList cs) := by
  simpa [Unbroken] using h

theorem intercalate {texts : List String} (h : ∀ t ∈ texts, Unbroken t) :
    Unbroken (String.intercalate ", " texts) := by
  induction texts with
  | nil => decide
  | cons t rest ih =>
    have ht := h t List.mem_cons_self
    have hrest := ih fun s hs => h s (List.mem_cons_of_mem t hs)
    cases rest with
    | nil => simpa using ht
    | cons s rest =>
      rw [String.intercalate_cons_cons]
      exact (ht.append (by decide)).append hrest

theorem parenthesize {text : String} (h : Unbroken text) : Unbroken (Printer.parenthesize text) :=
  (Unbroken.append (by decide) h).append (by decide)

theorem fit {text : String} (h : Unbroken text) (e : Expr) (least : Nat) :
    Unbroken (Printer.fit e least text) := by
  unfold Printer.fit
  split
  · exact h.parenthesize
  · exact h

end Unbroken

/-! ### Values -/

theorem isDigit_ne_break {c : Char} (h : c.isDigit) : c ≠ '\n' := by
  rintro rfl
  exact absurd h (by decide)

theorem break_notMem_toDigits (n : Nat) : '\n' ∉ Nat.toDigits 10 n := fun h =>
  isDigit_ne_break (Nat.isDigit_of_mem_toDigits (by decide) (by decide) h) rfl

theorem Decimal.break_notMem_positionalText {ds : List Char} (h : '\n' ∉ ds) (point : Int) :
    '\n' ∉ positionalText ds point := by
  have htake (n : Nat) : '\n' ∉ ds.take n := fun hc => h (List.mem_of_mem_take hc)
  have hdrop (n : Nat) : '\n' ∉ ds.drop n := fun hc => h (List.mem_of_mem_drop hc)
  unfold positionalText
  split
  · simp [h]
  · dsimp only
    split <;> simp [htake, hdrop]

theorem unbroken_displayDouble (x : Float) : Unbroken (Value.displayDouble x) := by
  unfold Value.displayDouble
  split
  · decide
  · split
    · split <;> decide
    · have hdigits (n : Nat) : '\n' ∉ Decimal.trimmedDigits n := by
        intro h
        rw [Decimal.trimmedDigits, List.mem_reverse] at h
        exact break_notMem_toDigits n (List.mem_reverse.1 ((List.dropWhile_sublist _).mem h))
      have htext (d : Decimal.Digits) : '\n' ∉ Decimal.Layout.plain.text d :=
        Decimal.break_notMem_positionalText (hdigits d.significand) _
      refine Unbroken.ofList ?_
      split <;> split <;> simp [htext]

/-- None of the three characters is left as it is by escaping. -/
theorem notMem_escape {c : Char} (hc : c ∈ ['\n', '\r', '\t']) (d : Char) : c ∉ Value.escape d := by
  unfold Value.escape
  grind

theorem notMem_displayString {c : Char} (hc : c ∈ ['\n', '\r', '\t']) (s : String) :
    c ∉ (Value.displayString s).toList := by
  have hquote : c ≠ '"' := by
    rintro rfl
    exact absurd hc (by decide)
  have hescape : c ∉ s.toList.flatMap Value.escape := by
    simp [notMem_escape hc]
  simp [Value.displayString, hquote, hescape]

theorem unbroken_display (v : Value) : Unbroken v.display := by
  cases v with
  | integer n =>
    refine Unbroken.ofList ?_
    split <;> simp [break_notMem_toDigits]
  | double x => exact unbroken_displayDouble x
  | boolean b => cases b <;> decide
  | string s => exact notMem_displayString (by simp) s
  | null => decide

/-! ### Expressions -/

/-- No name and no operator of the nodes has a line break. -/
def UnbrokenWords (nodes : List Node) : Prop := ∀ node ∈ nodes, ∀ word ∈ node.words, Unbroken word

namespace UnbrokenWords

theorem cons_iff {node : Node} {nodes : List Node} :
    UnbrokenWords (node :: nodes) ↔ (∀ word ∈ node.words, Unbroken word) ∧ UnbrokenWords nodes :=
  List.forall_mem_cons

theorem append_iff {ns ms : List Node} :
    UnbrokenWords (ns ++ ms) ↔ UnbrokenWords ns ∧ UnbrokenWords ms :=
  List.forall_mem_append

theorem branchStatements {s : Stmt} (h : UnbrokenWords s.walk) :
    UnbrokenWords (Stmt.walkList s.branchStatements) := by
  cases s with
  | block ss l =>
    rw [Stmt.walk, cons_iff] at h
    exact h.2
  | _ => simpa [Stmt.branchStatements, Stmt.walkList] using h

end UnbrokenWords

namespace Printer

theorem unbroken_separator (op operand : String) : Unbroken (separator op operand) := by
  unfold separator
  split
  · split <;> decide
  · decide

theorem unbroken_infixed {a b : Expr} {op : String} (hop : Unbroken op) (ha : Unbroken (spell a))
    (hb : Unbroken (spell b)) :
    Unbroken (fit a (opPrecedence op) (spell a) ++ " " ++ op ++ " " ++
      fit b (opPrecedence op + 1) (spell b)) :=
  ((((ha.fit a _).append (by decide)).append hop).append (by decide)).append (hb.fit b _)

theorem unbroken_spellList {es : List Expr} (h : ∀ e ∈ es, UnbrokenWords e.walk → Unbroken (spell e))
    (hw : UnbrokenWords (Expr.walkList es)) : ∀ text ∈ spellList es, Unbroken text := by
  induction es with
  | nil => simp [spellList]
  | cons e rest ih =>
    rw [Expr.walkList, UnbrokenWords.append_iff] at hw
    intro text htext
    rcases List.mem_cons.1 htext with rfl | htext
    · exact h e List.mem_cons_self hw.1
    · exact ih (fun e he => h e (List.mem_cons_of_mem _ he)) hw.2 text htext

theorem unbroken_spell (e : Expr) (hw : UnbrokenWords e.walk) : Unbroken (spell e) := by
  induction e using Expr.induct with
  | literal v l => exact unbroken_display v
  | grouping e l ih =>
    rw [Expr.walk, UnbrokenWords.cons_iff] at hw
    exact (ih hw.2).parenthesize
  | unary op e l ih =>
    rw [Expr.walk, UnbrokenWords.cons_iff] at hw
    have hop : Unbroken op := hw.1 op List.mem_cons_self
    exact (hop.append (unbroken_separator _ _)).append ((ih hw.2).fit e _)
  | binary a op b l iha ihb | logical a op b l iha ihb =>
    rw [Expr.walk, UnbrokenWords.cons_iff, UnbrokenWords.append_iff] at hw
    exact unbroken_infixed (hw.1 op List.mem_cons_self) (iha hw.2.1) (ihb hw.2.2)
  | access x l =>
    rw [Expr.walk, UnbrokenWords.cons_iff] at hw
    exact hw.1 x List.mem_cons_self
  | assign x e l ih =>
    rw [Expr.walk, UnbrokenWords.cons_iff] at hw
    have hx : Unbroken x := hw.1 x List.mem_cons_self
    exact (hx.append (by decide)).append (ih hw.2)
  | call f es l ih =>
    rw [Expr.walk, UnbrokenWords.cons_iff] at hw
    have hf : Unbroken f := hw.1 f List.mem_cons_self
    exact hf.append (Unbroken.intercalate (unbroken_spellList ih hw.2)).parenthesize

/-! ### Lines -/

theorem unbroken_keyword (t : Ty) : Unbroken t.keyword := by
  cases t <;> decide

theorem unbroken_signature {x : String} (hx : Unbroken x) (t : Ty) {ps : List Parameter}
    (hps : ∀ q ∈ ps, Unbroken q.name) : Unbroken (signature x t ps) := by
  have htyped : ∀ text ∈ ps.map fun q => q.name ++ ": " ++ q.type.keyword, Unbroken text := by
    intro text htext
    obtain ⟨q, hq, rfl⟩ := List.mem_map.1 htext
    exact ((hps q hq).append (by decide)).append (unbroken_keyword q.type)
  have hname : Unbroken ("func " ++ x) := Unbroken.append (by decide) hx
  exact ((hname.append (Unbroken.intercalate htyped).parenthesize).append (by decide)).append
    (unbroken_keyword t)

theorem unbroken_declaration {x : String} (hx : Unbroken x) (t : Ty) : Unbroken (declaration x t) :=
  ((Unbroken.append (by decide) hx).append (by decide)).append (unbroken_keyword t)

/-- The head of an `if` or of a `while`. -/
theorem unbroken_head {word : String} (hword : Unbroken word) {c : Expr} (hc : UnbrokenWords c.walk) :
    Unbroken (word ++ parenthesize (spell c)) :=
  hword.append (unbroken_spell c hc).parenthesize

theorem unbroken_opening (branch : Stmt) : Unbroken branch.opening := by
  unfold Stmt.opening
  split <;> decide

theorem unbroken_elseHead (branch : Stmt) : Unbroken branch.elseHead := by
  unfold Stmt.elseHead
  split <;> decide

def UnbrokenLines (ls : List SourceLine) : Prop := ∀ line ∈ ls, Unbroken line.text

namespace UnbrokenLines

theorem nil : UnbrokenLines [] := by simp [UnbrokenLines]

theorem append {ls more : List SourceLine} (h : UnbrokenLines ls) (hmore : UnbrokenLines more) :
    UnbrokenLines (ls ++ more) :=
  List.forall_mem_append.2 ⟨h, hmore⟩

theorem cons {text : String} {ls : List SourceLine} (depth : Nat) (h : Unbroken text)
    (hs : UnbrokenLines ls) : UnbrokenLines (⟨depth, text⟩ :: ls) :=
  List.forall_mem_cons.2 ⟨h, hs⟩

theorem single {text : String} (depth : Nat) (h : Unbroken text) : UnbrokenLines [⟨depth, text⟩] :=
  nil.cons depth h

/-- A line that opens a body, the lines of the body and the brace. -/
theorem body {text : String} {ls : List SourceLine} (depth : Nat) (h : Unbroken text)
    (hs : UnbrokenLines ls) : UnbrokenLines (⟨depth, text⟩ :: (ls ++ [⟨depth, "\x7d"⟩])) :=
  (hs.append (single depth (by decide))).cons depth h

theorem closing (depth : Nat) (branch : Stmt) : UnbrokenLines (branch.closing depth) := by
  unfold Stmt.closing
  split
  · exact single depth (by decide)
  · exact nil

end UnbrokenLines

theorem unbroken_listLines {ss : List Stmt}
    (h : ∀ s ∈ ss, UnbrokenWords s.walk → ∀ depth, UnbrokenLines (s.lines depth))
    (hw : UnbrokenWords (Stmt.walkList ss)) (depth : Nat) : UnbrokenLines (Stmt.listLines depth ss) := by
  induction ss with
  | nil => exact .nil
  | cons s rest ih =>
    rw [Stmt.walkList, UnbrokenWords.append_iff] at hw
    rw [Stmt.listLines]
    exact (h s List.mem_cons_self hw.1 depth).append
      (ih (fun t ht => h t (List.mem_cons_of_mem _ ht)) hw.2)

theorem unbroken_lines (s : Stmt) (hw : UnbrokenWords s.walk) (depth : Nat) :
    UnbrokenLines (s.lines depth) := by
  induction s using Stmt.scopeInduct generalizing depth with
  | function x t ps body k l ih =>
    rw [Stmt.walk, UnbrokenWords.cons_iff, UnbrokenWords.cons_iff] at hw
    have hx : Unbroken x := hw.1 x List.mem_cons_self
    have hps : ∀ q ∈ ps, Unbroken q.name := fun q hq =>
      hw.1 q.name (List.mem_cons_of_mem x (List.mem_map_of_mem hq))
    have hbody := unbroken_listLines ih hw.2.2 (depth + 1)
    exact .body depth ((unbroken_signature hx t hps).append (by decide)) hbody
  | block ss l ih =>
    rw [Stmt.walk, UnbrokenWords.cons_iff] at hw
    exact .body depth (by decide) (unbroken_listLines ih hw.2 (depth + 1))
  | expression e l =>
    rw [Stmt.walk, UnbrokenWords.cons_iff] at hw
    exact .single depth ((unbroken_spell e hw.2).append (by decide))
  | branch c s o l ihs iho =>
    rw [Stmt.walk, UnbrokenWords.cons_iff, UnbrokenWords.append_iff, UnbrokenWords.append_iff] at hw
    obtain ⟨-, ⟨hc, hs⟩, ho⟩ := hw
    have hif : Unbroken ("if " ++ parenthesize (spell c) ++ s.opening) :=
      (unbroken_head (by decide) hc).append (unbroken_opening s)
    have hthen := unbroken_listLines ihs hs.branchStatements (depth + 1)
    rw [Stmt.lines_branch]
    cases o with
    | none => exact (hthen.append (.closing depth s)).cons depth hif
    | some t =>
      have helse : Unbroken (s.elseHead ++ t.opening) :=
        (unbroken_elseHead s).append (unbroken_opening t)
      have ht := unbroken_listLines (iho t rfl) (UnbrokenWords.branchStatements (s := t) ho) (depth + 1)
      exact (hthen.append ((ht.append (.closing depth t)).cons depth helse)).cons depth hif
  | print e l =>
    rw [Stmt.walk, UnbrokenWords.cons_iff] at hw
    exact .single depth ((Unbroken.append (by decide) (unbroken_spell e hw.2)).append (by decide))
  | declare x t e l =>
    rw [Stmt.walk, UnbrokenWords.cons_iff] at hw
    have hx := unbroken_declaration (hw.1 x List.mem_cons_self) t
    cases e with
    | none => exact .single depth (hx.append (by decide))
    | some e =>
      exact .single depth (((hx.append (by decide)).append (unbroken_spell e hw.2)).append (by decide))
  | loop c body k l ih =>
    rw [Stmt.walk, UnbrokenWords.cons_iff, UnbrokenWords.append_iff, UnbrokenWords.cons_iff] at hw
    have hwhile : Unbroken ("while " ++ parenthesize (spell c)) := unbroken_head (by decide) hw.2.1
    exact .body depth (hwhile.append (by decide)) (unbroken_listLines ih hw.2.2.2 (depth + 1))
  | ret e l =>
    rw [Stmt.walk, UnbrokenWords.cons_iff] at hw
    cases e with
    | none => exact .single depth (by decide)
    | some e =>
      exact .single depth ((Unbroken.append (by decide) (unbroken_spell e hw.2)).append (by decide))

theorem unbroken_separatorLines (afterFunction : Option Bool) (s : Stmt) :
    UnbrokenLines (Program.separator afterFunction s) := by
  unfold Program.separator
  split
  · split
    · exact .single 0 (by decide)
    · exact .nil
  · exact .nil

theorem unbroken_linesAfter (afterFunction : Option Bool) {u : Program}
    (hw : UnbrokenWords (Stmt.walkList u)) : UnbrokenLines (Program.linesAfter afterFunction u) := by
  induction u generalizing afterFunction with
  | nil => exact .nil
  | cons s rest ih =>
    rw [Stmt.walkList, UnbrokenWords.append_iff] at hw
    rw [Program.linesAfter]
    exact (unbroken_separatorLines afterFunction s).append
      ((unbroken_lines s hw.1 0).append (ih (some s.isFunction) hw.2))

end Printer

open Printer

/-- A program without line breaks in its names and operators has none in its lines. -/
theorem Program.unbroken_lines {u : Program} (h : ∀ word ∈ u.words, Unbroken word) :
    ∀ line ∈ u.lines, Unbroken line.text :=
  unbroken_linesAfter none fun node hnode word hword =>
    h word (List.mem_flatMap.2 ⟨node, hnode, hword⟩)

end TreeWalk
