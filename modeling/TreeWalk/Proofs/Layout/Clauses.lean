import TreeWalk.Proofs.Layout.Lines
import TreeWalk.Proofs.Layout.Outline

/-! A statement as clauses: what stands between two semicolons, braces and heads of an `if`. The lines
of a statement spell the tokens of its clauses, whatever the blanks per level are. Braces around a branch
are the clauses of a block, although they share lines with the head of the `if` and with its `else`. -/

namespace TreeWalk

open Source Printer

/-! ### Clauses -/

/-- A part of a statement that no other part stands in. -/
inductive Clause where
  /-- What a semicolon ends. -/
  | sentence (ts : List Token)
  /-- What the brace of a body ends. -/
  | header (ts : List Token)
  /-- The head of an `if`. -/
  | condition (ts : List Token)
  | otherwise
  | opening
  | closing

namespace Clause

def tokens : Clause → List Token
  | .sentence ts => ts ++ [.mark ";"]
  | .header ts => ts ++ [.mark "\x7b"]
  | .condition ts => .word "if" :: enclose ts
  | .otherwise => [.word "else"]
  | .opening => [.mark "\x7b"]
  | .closing => [.mark "\x7d"]

/-- The tokens of clauses that follow one another. -/
def listTokens (cs : List Clause) : List Token := cs.flatMap tokens

@[simp] theorem listTokens_nil : listTokens [] = [] := rfl

@[simp] theorem listTokens_cons (c : Clause) (cs : List Clause) :
    listTokens (c :: cs) = c.tokens ++ listTokens cs := rfl

@[simp] theorem listTokens_append (cs ds : List Clause) :
    listTokens (cs ++ ds) = listTokens cs ++ listTokens ds := List.flatMap_append

theorem listTokens_singleton (c : Clause) : listTokens [c] = c.tokens := by simp

end Clause

namespace Parameter

def tokens (q : Parameter) : List Token := [.word q.name, .mark ":", .word q.type.keyword]

/-- The tokens of the parameters that come after another one, and of the parenthesis that ends them. -/
def laterTokens : List Parameter → List Token
  | [] => [.mark ")"]
  | q :: qs => .mark "," :: (q.tokens ++ laterTokens qs)

def listTokens : List Parameter → List Token
  | [] => [.mark ")"]
  | q :: qs => q.tokens ++ laterTokens qs

end Parameter

def signatureTokens (x : String) (t : Ty) (ps : List Parameter) : List Token :=
  .word "func" :: .word x :: .mark "(" :: (Parameter.listTokens ps ++ [.mark "->", .word t.keyword])

def declarationTokens (x : String) (t : Ty) : List Token :=
  [.word "var", .word x, .mark ":", .word t.keyword]

namespace Stmt

mutual

/-- The clauses of a statement in source order. -/
def clauses : Stmt → List Clause
  | .function x t ps body _ _ => .header (signatureTokens x t ps) :: (listClauses body ++ [.closing])
  | .block ss _ => .opening :: (listClauses ss ++ [.closing])
  | .expression e _ => [.sentence e.tokens]
  | .branch c s o _ => .condition c.tokens :: (s.clauses ++ elseClauses o)
  | .print e _ => [.sentence (.word "print" :: e.tokens)]
  | .declare x t none _ => [.sentence (declarationTokens x t)]
  | .declare x t (some e) _ => [.sentence (declarationTokens x t ++ .mark "=" :: e.tokens)]
  | .loop c body _ _ => .header (.word "while" :: enclose c.tokens) :: (listClauses body ++ [.closing])
  | .ret none _ => [.sentence [.word "return"]]
  | .ret (some e) _ => [.sentence (.word "return" :: e.tokens)]

def listClauses : List Stmt → List Clause
  | [] => []
  | s :: ss => s.clauses ++ listClauses ss

def elseClauses : Option Stmt → List Clause
  | none => []
  | some s => .otherwise :: s.clauses

end

/-- What a branch adds to the clauses of its statements. -/
def bracing (c : Clause) (branch : Stmt) : List Clause := if branch.isBlock then [c] else []

theorem clauses_eq_bracing (s : Stmt) :
    s.clauses = s.bracing .opening ++ (listClauses s.branchStatements ++ s.bracing .closing) := by
  cases hs : s.isBlock with
  | true =>
    obtain ⟨ss, k, rfl⟩ := isBlock_iff.1 hs
    simp [clauses, bracing, branchStatements, isBlock]
  | false => simp [bracing, hs, branchStatements_lone hs, listClauses]

theorem isWellFormed_branchStatements {s : Stmt} (h : s.isWellFormed) :
    ∀ t ∈ s.branchStatements, t.isWellFormed := by
  cases hs : s.isBlock with
  | true =>
    obtain ⟨ss, k, rfl⟩ := isBlock_iff.1 hs
    exact (areWellFormed_iff ss).1 h
  | false => simp [branchStatements_lone hs, h]

end Stmt

/-! ### Texts of clauses -/

namespace Source

theorem isName_iff {x : String} : isName x ↔ isIdentifier x ∧ x ∉ keywords := by simp [isName]

/-- Two texts with a blank between them. -/
theorem Spells.spaced {cs ds : List Char} {ts us : List Token} (hc : Spells cs ts) (hd : Spells ds us) :
    Spells (cs ++ ' ' :: ds) (ts ++ us) :=
  hc.append hd.blank (by rintro c ⟨⟩; rfl)

theorem Spells.semicolon {text : String} {ts : List Token} (h : Spells text.toList ts) :
    Spells (text ++ ";").toList (ts ++ [.mark ";"]) := by
  rw [String.toList_append]
  exact h.append (fun _ => rfl) (by rintro c ⟨⟩; rfl)

theorem spells_brace : Spells "\x7b".toList [.mark "\x7b"] := fun _ => rfl

/-- A text before the brace of a body. -/
theorem Spells.opened {text : String} {ts : List Token} (h : Spells text.toList ts) :
    Spells (text ++ " \x7b").toList (ts ++ [.mark "\x7b"]) := by
  rw [String.toList_append]
  exact h.spaced spells_brace

theorem spells_keyword (t : Ty) : Spells t.keyword.toList [.word t.keyword] := by
  cases t <;> exact fun _ => rfl

/-- A name and its type. -/
theorem spells_typed {x : String} (hx : isIdentifier x) (t : Ty) :
    Spells (x ++ ": " ++ t.keyword).toList [.word x, .mark ":", .word t.keyword] := by
  have ht : Spells (':' :: ' ' :: t.keyword.toList) [.mark ":", .word t.keyword] :=
    Spells.mark_cons (fun _ => rfl) (spells_keyword t).blank (by rintro c ⟨⟩; rfl)
  simp only [String.toList_append, List.append_assoc]
  exact (spells_of_isIdentifier hx).append ht (by rintro c ⟨⟩; rfl)

/-- The parameters of a function, up to the parenthesis that ends them. -/
theorem spells_parameters {text : Parameter → String} (q : Parameter) (qs : List Parameter)
    (h : ∀ p ∈ q :: qs, Spells (text p).toList p.tokens) :
    Spells ((String.intercalate ", " ((q :: qs).map text)).toList ++ [')'])
      (Parameter.listTokens (q :: qs)) := by
  have hq := h q (by simp)
  induction qs generalizing q with
  | nil =>
    simp only [List.map_cons, List.map_nil, String.intercalate_singleton]
    exact hq.append spells_parenthesis (by rintro c ⟨⟩; rfl)
  | cons q' qs ih =>
    have hrest := ih q' (fun p hp => h p (by simp [List.mem_cons.1 hp])) (h q' (by simp))
    simp only [List.map_cons, String.intercalate_cons_cons, String.toList_append, List.append_assoc]
      at hrest ⊢
    exact hq.append (Spells.mark_cons (fun _ => rfl) hrest.blank (by rintro c ⟨⟩; rfl))
      (by rintro c ⟨⟩; rfl)

theorem spells_signature {x : String} (hx : isIdentifier x) (t : Ty) {ps : List Parameter}
    (hps : ∀ p ∈ ps, isIdentifier p.name) :
    Spells (signature x t ps).toList (signatureTokens x t ps) := by
  have hlist : Spells ((String.intercalate ", "
      (ps.map fun p => p.name ++ ": " ++ p.type.keyword)).toList ++ [')'])
      (Parameter.listTokens ps) := by
    cases ps with
    | nil => exact spells_parenthesis
    | cons p ps => exact spells_parameters p ps fun q hq => spells_typed (hps q hq) q.type
  have harrow : Spells ("->".toList ++ ' ' :: t.keyword.toList) ([.mark "->"] ++ [.word t.keyword]) :=
    Spells.spaced (fun _ => rfl) (spells_keyword t)
  have hname : Spells (x.toList ++ '(' :: _) ([.word x] ++ .mark "(" :: Parameter.listTokens ps) :=
    (spells_of_isIdentifier hx).append (Spells.mark_cons (fun _ => rfl) hlist fun c _ => by
      simp [continues]) (by rintro c ⟨⟩; rfl)
  have hfunc : Spells "func".toList [.word "func"] := fun _ => rfl
  have hall := hfunc.spaced (hname.spaced harrow)
  simpa [signature, signatureTokens, toList_parenthesize] using hall

theorem spells_declaration {x : String} (hx : isIdentifier x) (t : Ty) :
    Spells (declaration x t).toList (declarationTokens x t) := by
  have hvar : Spells "var".toList [.word "var"] := fun _ => rfl
  have hall := hvar.spaced (spells_typed hx t)
  simpa [declaration, declarationTokens] using hall

/-- The head of an `if` or of a `while`. -/
theorem spells_head {w : String} (hw : Spells w.toList [.word w]) {c : Expr} (hc : c.isWellFormed) :
    Spells (w ++ " " ++ parenthesize (spell c)).toList (.word w :: enclose c.tokens) := by
  rw [String.toList_append, String.toList_append, List.append_assoc]
  exact hw.spaced (spells_spell c hc).parenthesize

/-- The line of a head, on which a branch in braces starts. -/
theorem Spells.opening {text : String} {ts : List Token} (h : Spells text.toList ts) (branch : Stmt) :
    Spells (text ++ branch.opening).toList
      (ts ++ Clause.listTokens (branch.bracing .opening)) := by
  unfold Stmt.opening Stmt.bracing
  split_ifs
  · exact h.opened
  · simpa using h

/-- An `else` on the line on which a branch in braces ends, or on a line of its own. -/
theorem spells_elseHead (branch : Stmt) :
    Spells branch.elseHead.toList (Clause.listTokens (branch.bracing .closing) ++ [.word "else"]) := by
  have helse : Spells "else".toList [.word "else"] := fun _ => rfl
  unfold Stmt.elseHead Stmt.bracing
  split_ifs
  · rw [String.toList_append, Clause.listTokens_singleton]
    exact Spells.spaced (fun _ => rfl) helse
  · exact helse

end Source

/-! ### Lines of statements -/

namespace Printer

/-- The scanner reads the tokens from the lines, whatever the width, and is then between two tokens. -/
def SpellsLines (ls : List SourceLine) (ts : List Token) : Prop :=
  ∀ width before, Scanner.run ⟨before, .nothing⟩ (render width ls).toList = ⟨before ++ ts, .nothing⟩

theorem spellsLines_nil : SpellsLines [] [] := by
  intro width before
  simp

theorem run_indentation (before : List Token) (width depth : Nat) :
    Scanner.run ⟨before, .nothing⟩ (indentation width depth).toList = ⟨before, .nothing⟩ := by
  rw [indentation, String.toList_ofList]
  induction depth * width with
  | zero => rfl
  | succ n ih => exact ih

theorem SpellsLines.cons {text : String} {ls : List SourceLine} {ts us : List Token} (depth : Nat)
    (h : Spells text.toList ts) (hs : SpellsLines ls us) :
    SpellsLines (⟨depth, text⟩ :: ls) (ts ++ us) := by
  intro width before
  have hline := h before
  -- The line break ends the last token of the line.
  have hbreak : (Scanner.run ⟨before, .nothing⟩ text.toList).step '\n' =
      ⟨before ++ ts, .nothing⟩ := by
    rw [← step_settle (by rw [hline]) rfl, hline]
    rfl
  simp only [render_cons, String.toList_append, Scanner.run_append, run_indentation]
  rw [← List.append_assoc, ← hs width]
  exact congrArg (Scanner.run · _) hbreak

theorem SpellsLines.append {ls more : List SourceLine} {ts us : List Token} (h : SpellsLines ls ts)
    (hs : SpellsLines more us) : SpellsLines (ls ++ more) (ts ++ us) := by
  intro width before
  rw [render_append, String.toList_append, Scanner.run_append, h, hs, List.append_assoc]

theorem spellsLines_singleton {text : String} {ts : List Token} (depth : Nat)
    (h : Spells text.toList ts) : SpellsLines [⟨depth, text⟩] ts := by
  simpa using SpellsLines.cons depth h spellsLines_nil

theorem spellsLines_sentence {text : String} {ts : List Token} (depth : Nat)
    (h : Spells text.toList ts) :
    SpellsLines [⟨depth, text ++ ";"⟩] (Clause.listTokens [.sentence ts]) := by
  rw [Clause.listTokens_singleton]
  exact spellsLines_singleton depth h.semicolon

theorem spellsLines_brace (depth : Nat) :
    SpellsLines [⟨depth, "\x7d"⟩] (Clause.listTokens [.closing]) := by
  have hbrace : Spells "\x7d".toList [.mark "\x7d"] := fun _ => rfl
  exact spellsLines_singleton depth hbrace

/-- The lines of the statement spell its clauses. -/
def SpellsStmt (s : Stmt) : Prop :=
  s.isWellFormed → ∀ depth, SpellsLines (s.lines depth) (Clause.listTokens s.clauses)

theorem spellsLines_list {ss : List Stmt} (h : ∀ s ∈ ss, SpellsStmt s)
    (hw : ∀ s ∈ ss, s.isWellFormed) (depth : Nat) :
    SpellsLines (Stmt.listLines depth ss) (Clause.listTokens (Stmt.listClauses ss)) := by
  induction ss with
  | nil => exact spellsLines_nil
  | cons s ss ih =>
    have hs := h s (by simp) (hw s (by simp)) depth
    have hss := ih (fun t ht => h t (by simp [ht])) fun t ht => hw t (by simp [ht])
    rw [Stmt.listLines, Stmt.listClauses, Clause.listTokens_append]
    exact hs.append hss

theorem spellsLines_closing (depth : Nat) (branch : Stmt) :
    SpellsLines (branch.closing depth) (Clause.listTokens (branch.bracing .closing)) := by
  unfold Stmt.closing Stmt.bracing
  split_ifs
  · exact spellsLines_brace depth
  · exact spellsLines_nil

/-- A line that opens a body, the statements of the body and the line that closes it. -/
theorem spellsLines_body {text : String} {ts : List Token} {ss : List Stmt} (depth : Nat)
    (hline : Spells text.toList ts) (h : ∀ s ∈ ss, SpellsStmt s) (hw : Stmt.areWellFormed ss) :
    SpellsLines (⟨depth, text⟩ :: (Stmt.listLines (depth + 1) ss ++ [⟨depth, "\x7d"⟩]))
      (ts ++ Clause.listTokens (Stmt.listClauses ss ++ [.closing])) := by
  have hss := spellsLines_list h ((Stmt.areWellFormed_iff ss).1 hw) (depth + 1)
  rw [Clause.listTokens_append]
  exact SpellsLines.cons depth hline (hss.append (spellsLines_brace depth))

theorem spellsStmt (s : Stmt) : SpellsStmt s := by
  induction s using Stmt.scopeInduct with
  | function x t ps body k l ih =>
    intro hw depth
    simp only [Stmt.isWellFormed, Bool.and_eq_true, List.all_eq_true, isName_iff] at hw
    have hsig := spells_signature hw.1.1.1 t fun p hp => (hw.1.2 p hp).1
    exact spellsLines_body depth hsig.opened ih hw.2
  | block ss l ih =>
    intro hw depth
    exact spellsLines_body depth spells_brace ih hw
  | expression e l =>
    intro hw depth
    have he := spells_spell e ((Expr.isPlain_iff e).1 hw).1
    exact spellsLines_sentence depth he
  | branch c s o l ihs iho =>
    intro hw depth
    simp only [Stmt.isWellFormed, Bool.and_eq_true, Stmt.optionIsWellFormed_iff] at hw
    have hif := (spells_head (w := "if") (fun _ => rfl) ((Expr.isPlain_iff c).1 hw.1.1).1).opening s
    have hs := spellsLines_list ihs (Stmt.isWellFormed_branchStatements hw.1.2) (depth + 1)
    rw [Stmt.lines_branch]
    cases o with
    | none =>
      have hall := SpellsLines.cons depth hif (hs.append (spellsLines_closing depth s))
      simpa [Stmt.clauses, Stmt.elseClauses, Clause.tokens, s.clauses_eq_bracing] using hall
    | some t =>
      have ht := spellsLines_list (iho t rfl) (Stmt.isWellFormed_branchStatements (hw.2 t rfl))
        (depth + 1)
      have helse := SpellsLines.cons depth ((spells_elseHead s).opening t)
        (ht.append (spellsLines_closing depth t))
      have hall := SpellsLines.cons depth hif (hs.append helse)
      simpa [Stmt.clauses, Stmt.elseClauses, Clause.tokens, s.clauses_eq_bracing,
        t.clauses_eq_bracing] using hall
  | print e l =>
    intro hw depth
    have he := spells_spell e ((Expr.isPlain_iff e).1 hw).1
    have hword : Spells "print".toList [.word "print"] := fun _ => rfl
    have hprint : Spells ("print " ++ spell e).toList (.word "print" :: e.tokens) := by
      rw [String.toList_append]
      exact hword.spaced he
    exact spellsLines_sentence depth hprint
  | declare x t e l =>
    intro hw depth
    simp only [Stmt.isWellFormed, Bool.and_eq_true, isName_iff] at hw
    have hx := spells_declaration hw.1.1 t
    cases e with
    | none => exact spellsLines_sentence depth hx
    | some e =>
      have he := spells_spell e ((Expr.isPlain_iff e).1 hw.2).1
      have hvalue : Spells ('=' :: ' ' :: (spell e).toList) (.mark "=" :: e.tokens) :=
        Spells.mark_cons (fun _ => rfl) he.blank (by rintro c ⟨⟩; rfl)
      have hall : Spells (declaration x t ++ " = " ++ spell e).toList
          (declarationTokens x t ++ .mark "=" :: e.tokens) := by
        rw [String.toList_append, String.toList_append, List.append_assoc]
        exact hx.spaced hvalue
      exact spellsLines_sentence depth hall
  | loop c body k l ih =>
    intro hw depth
    simp only [Stmt.isWellFormed, Bool.and_eq_true] at hw
    have hwhile := spells_head (w := "while") (fun _ => rfl) ((Expr.isPlain_iff c).1 hw.1).1
    exact spellsLines_body depth hwhile.opened ih hw.2
  | ret e l =>
    intro hw depth
    have hword : Spells "return".toList [.word "return"] := fun _ => rfl
    cases e with
    | none =>
      have hret := spellsLines_sentence depth hword
      exact hret
    | some e =>
      have he := spells_spell e ((Expr.isPlain_iff e).1 hw).1
      have hret : Spells ("return " ++ spell e).toList (.word "return" :: e.tokens) := by
        rw [String.toList_append]
        exact hword.spaced he
      exact spellsLines_sentence depth hret

theorem spellsLines_separator (afterFunction : Option Bool) (s : Stmt) :
    SpellsLines (Program.separator afterFunction s) [] := by
  unfold Program.separator
  split
  · split_ifs
    · exact spellsLines_singleton 0 fun before => by simp [Scanner.settle]
    · exact spellsLines_nil
  · exact spellsLines_nil

theorem spellsLines_linesAfter (afterFunction : Option Bool) {u : Program}
    (hw : ∀ s ∈ u, s.isWellFormed) :
    SpellsLines (Program.linesAfter afterFunction u) (Clause.listTokens (Stmt.listClauses u)) := by
  induction u generalizing afterFunction with
  | nil => exact spellsLines_nil
  | cons s rest ih =>
    have hs := spellsStmt s (hw s (by simp)) 0
    have hrest := ih (some s.isFunction) fun t ht => hw t (by simp [ht])
    rw [Program.linesAfter, Stmt.listClauses, Clause.listTokens_append]
    exact (spellsLines_separator afterFunction s).append (hs.append hrest)

end Printer

/-- The text of a well-formed program is scanned as the tokens of its clauses. -/
theorem Program.scan_print {u : Program} (hw : u.isWellFormed) (width : Nat) :
    scan (u.print width) = some (Clause.listTokens (Stmt.listClauses u)) := by
  rw [Program.print_eq]
  refine Spells.scan ?_
  intro before
  have h := spellsLines_linesAfter none ((Stmt.areWellFormed_iff u).1 hw) width before
  rw [Program.lines, h, Scanner.settle]

end TreeWalk
