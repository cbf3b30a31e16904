import TreeWalk.Proofs.Layout.Clauses
import TreeWalk.Proofs.Source.Unambiguous

/-! Splitting tokens into clauses. A splitter reads one token at a time and keeps the part of a clause
that it is in the middle of. Semicolons and braces end a clause; the head of an `if` ends with the
parenthesis that closes its first one. The tokens of expressions have no semicolons, braces and keywords
and their parentheses are balanced, so the clauses of a well-formed program can be told apart. -/

namespace TreeWalk

open Source Printer

namespace Clause

/-- What was read of the present clause. -/
inductive Part where
  | nothing
  /-- A sentence or a header. -/
  | phrase (ts : List Token)
  /-- A condition in which `level` parentheses are open. -/
  | condition (level : Nat) (ts : List Token)

/-- The clauses read so far and the present one. -/
structure Splitter where
  clauses : List Clause := []
  part : Part := .nothing

namespace Splitter

/-- Reads the first token of a clause. -/
def start (cs : List Clause) (t : Token) : Splitter :=
  if t = .mark "\x7b" then ⟨cs ++ [.opening], .nothing⟩
  else if t = .mark "\x7d" then ⟨cs ++ [.closing], .nothing⟩
  else if t = .word "else" then ⟨cs ++ [.otherwise], .nothing⟩
  else if t = .word "if" then ⟨cs, .condition 0 []⟩
  else ⟨cs, .phrase [t]⟩

/-- Reads a token. The outermost parentheses of a condition are left out. -/
def step (s : Splitter) (t : Token) : Splitter :=
  match s.part with
  | .nothing => start s.clauses t
  | .phrase ts =>
    if t = .mark ";" then ⟨s.clauses ++ [.sentence ts], .nothing⟩
    else if t = .mark "\x7b" then ⟨s.clauses ++ [.header ts], .nothing⟩
    else ⟨s.clauses, .phrase (ts ++ [t])⟩
  | .condition 0 ts => ⟨s.clauses, .condition 1 ts⟩
  | .condition (n + 1) ts =>
    if t = .mark "(" then ⟨s.clauses, .condition (n + 2) (ts ++ [t])⟩
    else if t ≠ .mark ")" then ⟨s.clauses, .condition (n + 1) (ts ++ [t])⟩
    else if n = 0 then ⟨s.clauses ++ [.condition ts], .nothing⟩
    else ⟨s.clauses, .condition n (ts ++ [t])⟩

def run (s : Splitter) (ts : List Token) : Splitter := ts.foldl step s

@[simp] theorem run_nil (s : Splitter) : s.run [] = s := rfl

@[simp] theorem run_cons (s : Splitter) (t : Token) (ts : List Token) :
    s.run (t :: ts) = (s.step t).run ts := rfl

@[simp] theorem run_append (s : Splitter) (ts us : List Token) : s.run (ts ++ us) = (s.run ts).run us :=
  List.foldl_append

end Splitter

/-- The clauses of a list of tokens. -/
def split (ts : List Token) : List Clause := (Splitter.run {} ts).clauses

/-! ### Clauses that can be told apart -/

/-- The marks that end a clause. -/
def endMarks : List String := [";", "\x7b", "\x7d"]

/-- A token that is no keyword and ends no clause. -/
def isInner : Token → Bool
  | .word w => !keywords.contains w
  | .mark m => !endMarks.contains m
  | .number _ | .quoted _ => true

/-- The tokens of a sentence or of a header. -/
def IsPhrase : List Token → Prop
  | [] => False
  | t :: ts => (∀ cs, Splitter.start cs t = ⟨cs, .phrase [t]⟩) ∧ ∀ u ∈ ts, isInner u

/-- Inside a condition the tokens close the parentheses that they open. -/
def Balanced (ts : List Token) : Prop :=
  ∀ cs n us, Splitter.run ⟨cs, .condition (n + 1) us⟩ ts = ⟨cs, .condition (n + 1) (us ++ ts)⟩

/-- A clause that ends where its last token is. -/
def IsPlain : Clause → Prop
  | .sentence ts | .header ts => IsPhrase ts
  | .condition ts => Balanced ts
  | .otherwise | .opening | .closing => True

theorem run_phrase (cs : List Clause) (ts us : List Token) (h : ∀ t ∈ us, isInner t) :
    Splitter.run ⟨cs, .phrase ts⟩ us = ⟨cs, .phrase (ts ++ us)⟩ := by
  induction us generalizing ts with
  | nil => simp
  | cons t us ih =>
    have ht : isInner t := h t (by simp)
    have hs : t ≠ .mark ";" := by rintro rfl; simp [isInner, endMarks] at ht
    have hb : t ≠ .mark "\x7b" := by rintro rfl; simp [isInner, endMarks] at ht
    simp only [Splitter.run_cons, Splitter.step, hs, hb, if_false]
    rw [ih _ fun u hu => h u (by simp [hu]), List.append_assoc, List.singleton_append]

theorem IsPhrase.run {ts : List Token} (h : IsPhrase ts) (cs : List Clause) :
    Splitter.run ⟨cs, .nothing⟩ ts = ⟨cs, .phrase ts⟩ := by
  cases ts with
  | nil => exact h.elim
  | cons t ts =>
    have hstart : Splitter.step ⟨cs, .nothing⟩ t = ⟨cs, .phrase [t]⟩ := h.1 cs
    rw [Splitter.run_cons, hstart, run_phrase cs [t] ts h.2, List.singleton_append]

/-- Reading the tokens of a clause adds the clause. -/
theorem run_tokens {c : Clause} (h : c.IsPlain) (cs : List Clause) :
    Splitter.run ⟨cs, .nothing⟩ c.tokens = ⟨cs ++ [c], .nothing⟩ := by
  cases c with
  | sentence ts =>
    rw [tokens, Splitter.run_append, IsPhrase.run h]
    rfl
  | header ts =>
    rw [tokens, Splitter.run_append, IsPhrase.run h]
    rfl
  | condition ts =>
    have hbody : Splitter.run ⟨cs, .condition 1 []⟩ ts = ⟨cs, .condition 1 ts⟩ := h cs 0 []
    rw [tokens, enclose, ← List.cons_append, ← List.cons_append, Splitter.run_append]
    exact congrArg (Splitter.run · _) hbody
  | otherwise => rfl
  | opening => rfl
  | closing => rfl

theorem run_listTokens {cs : List Clause} (h : ∀ c ∈ cs, c.IsPlain) (before : List Clause) :
    Splitter.run ⟨before, .nothing⟩ (listTokens cs) = ⟨before ++ cs, .nothing⟩ := by
  induction cs generalizing before with
  | nil => simp
  | cons c cs ih =>
    rw [listTokens_cons, Splitter.run_append, run_tokens (h c (by simp)),
      ih (fun d hd => h d (by simp [hd])), List.append_assoc, List.singleton_append]

/-- Plain clauses are split off their tokens. -/
theorem split_listTokens {cs : List Clause} (h : ∀ c ∈ cs, c.IsPlain) : split (listTokens cs) = cs := by
  rw [split, run_listTokens h]
  rfl

/-! ### Tokens of expressions -/

theorem Balanced.append {ts us : List Token} (ht : Balanced ts) (hu : Balanced us) :
    Balanced (ts ++ us) := by
  intro cs n vs
  rw [Splitter.run_append, ht, hu, List.append_assoc]

theorem balanced_nil : Balanced [] := by
  intro cs n us
  simp

theorem balanced_cons {t : Token} {ts : List Token} (ho : t ≠ .mark "(") (hc : t ≠ .mark ")")
    (h : Balanced ts) : Balanced (t :: ts) := by
  intro cs n us
  have hstep : Splitter.step ⟨cs, .condition (n + 1) us⟩ t = ⟨cs, .condition (n + 1) (us ++ [t])⟩ := by
    simp [Splitter.step, ho, hc]
  rw [Splitter.run_cons, hstep, h, List.append_assoc, List.singleton_append]

theorem balanced_singleton {t : Token} (ho : t ≠ .mark "(") (hc : t ≠ .mark ")") : Balanced [t] :=
  balanced_cons ho hc balanced_nil

theorem Balanced.enclose {ts : List Token} (h : Balanced ts) : Balanced (enclose ts) := by
  intro cs n us
  have hopen : Splitter.step ⟨cs, .condition (n + 1) us⟩ (.mark "(") =
      ⟨cs, .condition (n + 2) (us ++ [.mark "("])⟩ := rfl
  rw [Source.enclose, Splitter.run_cons, hopen, Splitter.run_append, h]
  simp [Splitter.step]

theorem Balanced.fit {e : Expr} (h : Balanced e.tokens) (least : Nat) :
    Balanced (fitTokens e least e.tokens) := by
  unfold fitTokens
  split_ifs
  · exact h.enclose
  · exact h

/-- The arguments of a call after the first, without the parenthesis that ends them. -/
theorem exists_laterTokens {es : List Expr} (h : ∀ e ∈ es, Balanced e.tokens) :
    ∃ ts, Balanced ts ∧ Expr.laterTokens es = ts ++ [.mark ")"] := by
  induction es with
  | nil => exact ⟨[], balanced_nil, rfl⟩
  | cons e es ih =>
    obtain ⟨ts, hts, heq⟩ := ih fun a ha => h a (by simp [ha])
    refine ⟨.mark "," :: (e.tokens ++ ts), ?_, by simp [Expr.laterTokens, heq]⟩
    exact balanced_cons (by simp) (by simp) ((h e (by simp)).append hts)

theorem balanced_arguments {es : List Expr} (h : ∀ e ∈ es, Balanced e.tokens) :
    Balanced (.mark "(" :: Expr.argumentTokens es) := by
  cases es with
  | nil => exact balanced_nil.enclose
  | cons e es =>
    obtain ⟨ts, hts, heq⟩ := exists_laterTokens fun a ha => h a (List.mem_cons_of_mem e ha)
    have hall := ((h e (by simp)).append hts).enclose
    simpa [Source.enclose, Expr.argumentTokens, heq] using hall

/-- An operator is neither a parenthesis nor the end of a clause. -/
theorem isInner_operator :
    ∀ op ∈ unaryOperators ++ (binaryOperators ++ logicalOperators),
      op ≠ "(" ∧ op ≠ ")" ∧ isInner (.mark op) := by
  decide

theorem balanced_infixed {a b : Expr} {op : String} (hop : op ∈ binaryOperators ++ logicalOperators)
    (ha : Balanced a.tokens) (hb : Balanced b.tokens) (p q : Nat) :
    Balanced (fitTokens a p a.tokens ++ .mark op :: fitTokens b q b.tokens) := by
  obtain ⟨ho, hc, -⟩ := isInner_operator op (List.mem_append_right _ hop)
  exact (ha.fit p).append (balanced_cons (by simp [ho]) (by simp [hc]) (hb.fit q))

theorem balanced_tokens (e : Expr) (h : e.isWellFormed) : Balanced e.tokens := by
  induction e using Expr.induct with
  | literal v l =>
    cases v with
    | integer n =>
      have hn : Balanced [.number n.toInt.natAbs] := balanced_singleton (by simp) (by simp)
      simp only [Expr.tokens, Value.tokens]
      split_ifs
      · exact balanced_cons (by simp) (by simp) hn
      · exact balanced_singleton (by simp) (by simp)
    | double x => exact balanced_nil
    | boolean b => cases b <;> exact balanced_singleton (by simp) (by simp)
    | string s => exact balanced_singleton (by simp) (by simp)
    | null => exact balanced_singleton (by simp) (by simp)
  | grouping e l ih => exact (ih h).enclose
  | unary op e l ih =>
    simp only [Expr.isWellFormed, Bool.and_eq_true, List.contains_eq_mem, decide_eq_true_eq] at h
    obtain ⟨ho, hc, -⟩ := isInner_operator op (List.mem_append_left _ h.1)
    exact balanced_cons (by simp [ho]) (by simp [hc]) ((ih h.2).fit _)
  | binary a op b l iha ihb =>
    simp only [Expr.isWellFormed, Bool.and_eq_true, List.contains_eq_mem, decide_eq_true_eq] at h
    exact balanced_infixed (List.mem_append_left _ h.1.1) (iha h.1.2) (ihb h.2) _ _
  | logical a op b l iha ihb =>
    simp only [Expr.isWellFormed, Bool.and_eq_true, List.contains_eq_mem, decide_eq_true_eq] at h
    exact balanced_infixed (List.mem_append_right _ h.1.1) (iha h.1.2) (ihb h.2) _ _
  | access x l => exact balanced_singleton (by simp) (by simp)
  | assign x e l ih =>
    simp only [Expr.isWellFormed, Bool.and_eq_true] at h
    exact balanced_cons (by simp) (by simp) (balanced_cons (by simp) (by simp) (ih h.2))
  | call f es l ih =>
    simp only [Expr.isWellFormed, Bool.and_eq_true, Expr.areWellFormed_iff] at h
    exact balanced_cons (by simp) (by simp) (balanced_arguments fun e he => ih e he (h.2 e he))

theorem isInner_enclose {ts : List Token} (h : ∀ t ∈ ts, isInner t) : ∀ t ∈ enclose ts, isInner t := by
  simp only [enclose, List.forall_mem_cons, List.forall_mem_append]
  exact ⟨by decide, h, by decide, by simp⟩

theorem isInner_fitTokens {e : Expr} (h : ∀ t ∈ e.tokens, isInner t) (least : Nat) :
    ∀ t ∈ fitTokens e least e.tokens, isInner t := by
  unfold fitTokens
  split_ifs
  · exact isInner_enclose h
  · exact h

theorem isInner_word {x : String} (h : x ∉ keywords) : isInner (.word x) := by simp [isInner, h]

theorem isInner_infixed {a b : Expr} {op : String} (hop : op ∈ binaryOperators ++ logicalOperators)
    (ha : ∀ t ∈ a.tokens, isInner t) (hb : ∀ t ∈ b.tokens, isInner t) (p q : Nat) :
    ∀ t ∈ fitTokens a p a.tokens ++ .mark op :: fitTokens b q b.tokens, isInner t := by
  obtain ⟨-, -, hop⟩ := isInner_operator op (List.mem_append_right _ hop)
  simp only [List.forall_mem_append, List.forall_mem_cons]
  exact ⟨isInner_fitTokens ha p, hop, isInner_fitTokens hb q⟩

theorem isInner_laterTokens {es : List Expr} (h : ∀ e ∈ es, ∀ t ∈ e.tokens, isInner t) :
    ∀ t ∈ Expr.laterTokens es, isInner t := by
  have hm : isInner (.mark ",") ∧ isInner (.mark ")") := by decide
  induction es with
  | nil => simp [Expr.laterTokens, hm]
  | cons e es ih =>
    simp only [Expr.laterTokens, List.forall_mem_append, List.forall_mem_cons]
    exact ⟨hm.1, h e (by simp), ih fun a ha => h a (by simp [ha])⟩

theorem isInner_argumentTokens {es : List Expr} (h : ∀ e ∈ es, ∀ t ∈ e.tokens, isInner t) :
    ∀ t ∈ Expr.argumentTokens es, isInner t := by
  cases es with
  | nil => simp [Expr.argumentTokens, show isInner (.mark ")") by decide]
  | cons e es =>
    simp only [Expr.argumentTokens, List.forall_mem_append]
    exact ⟨h e (by simp), isInner_laterTokens fun a ha => h a (by simp [ha])⟩

theorem mem_listNames {x : String} {es : List Expr} :
    x ∈ Expr.listNames es ↔ ∃ e ∈ es, x ∈ e.names := by
  induction es with
  | nil => simp [Expr.listNames]
  | cons e es ih => simp [Expr.listNames, ih]

theorem isInner_tokens (e : Expr) (hw : e.isWellFormed) (hn : ∀ x ∈ e.names, x ∉ keywords) :
    ∀ t ∈ e.tokens, isInner t := by
  induction e using Expr.induct with
  | literal v l =>
    cases v with
    | integer n =>
      simp only [Expr.tokens, Value.tokens]
      split_ifs <;> simp [isInner, endMarks]
    | boolean b => cases b <;> simp [Expr.tokens, Value.tokens, isInner, keywords]
    | _ => simp [Expr.tokens, Value.tokens, isInner, keywords]
  | grouping e l ih => exact isInner_enclose (ih hw hn)
  | unary op e l ih =>
    simp only [Expr.isWellFormed, Bool.and_eq_true, List.contains_eq_mem, decide_eq_true_eq] at hw
    obtain ⟨-, -, hop⟩ := isInner_operator op (List.mem_append_left _ hw.1)
    exact List.forall_mem_cons.2 ⟨hop, isInner_fitTokens (ih hw.2 hn) _⟩
  | binary a op b l iha ihb =>
    simp only [Expr.isWellFormed, Bool.and_eq_true, List.contains_eq_mem, decide_eq_true_eq] at hw
    obtain ⟨hna, hnb⟩ := List.forall_mem_append.1 hn
    exact isInner_infixed (List.mem_append_left _ hw.1.1) (iha hw.1.2 hna) (ihb hw.2 hnb) _ _
  | logical a op b l iha ihb =>
    simp only [Expr.isWellFormed, Bool.and_eq_true, List.contains_eq_mem, decide_eq_true_eq] at hw
    obtain ⟨hna, hnb⟩ := List.forall_mem_append.1 hn
    exact isInner_infixed (List.mem_append_right _ hw.1.1) (iha hw.1.2 hna) (ihb hw.2 hnb) _ _
  | access x l => simpa [Expr.tokens] using isInner_word (hn x (by simp [Expr.names]))
  | assign x e l ih =>
    simp only [Expr.isWellFormed, Bool.and_eq_true] at hw
    obtain ⟨hx, hne⟩ := List.forall_mem_cons.1 hn
    simp only [Expr.tokens, List.forall_mem_cons]
    exact ⟨isInner_word hx, by decide, ih hw.2 hne⟩
  | call f es l ih =>
    simp only [Expr.isWellFormed, Bool.and_eq_true, Expr.areWellFormed_iff] at hw
    obtain ⟨hf, hnes⟩ := List.forall_mem_cons.1 hn
    simp only [Expr.tokens, List.forall_mem_cons]
    refine ⟨isInner_word hf, by decide, isInner_argumentTokens fun e he => ?_⟩
    exact ih e he (hw.2 e he) fun x hx => hnes x (mem_listNames.2 ⟨e, he, hx⟩)

/-! ### Clauses of statements -/

theorem isInner_of_isPlain {e : Expr} (h : e.isPlain) : ∀ t ∈ e.tokens, isInner t :=
  isInner_tokens e ((Expr.isPlain_iff e).1 h).1 ((Expr.isPlain_iff e).1 h).2

theorem start_inner {t : Token} (h : isInner t) (cs : List Clause) :
    Splitter.start cs t = ⟨cs, .phrase [t]⟩ := by
  have hne (k : Token) (hk : isInner k = false) : t ≠ k := by
    rintro rfl
    simp [hk] at h
  simp [Splitter.start, hne (.mark "\x7b") (by decide), hne (.mark "\x7d") (by decide),
    hne (.word "else") (by decide), hne (.word "if") (by decide)]

theorem tokens_ne_nil {e : Expr} (h : e.isWellFormed) : e.tokens ≠ [] := by
  intro hnil
  have hread := read_tokens e h
  rw [hnil] at hread
  exact absurd hread nofun

theorem isPhrase_expression {e : Expr} (h : e.isPlain) : IsPhrase e.tokens := by
  have hinner := isInner_of_isPlain h
  cases hts : e.tokens with
  | nil => exact absurd hts (tokens_ne_nil ((Expr.isPlain_iff e).1 h).1)
  | cons t ts =>
    rw [hts] at hinner
    obtain ⟨ht, hts⟩ := List.forall_mem_cons.1 hinner
    exact ⟨start_inner ht, hts⟩

theorem isInner_keyword (t : Ty) : isInner (.word t.keyword) := by cases t <;> decide

theorem isInner_parameter {q : Parameter} (h : isName q.name) : ∀ t ∈ q.tokens, isInner t := by
  simp only [Parameter.tokens, List.forall_mem_cons]
  exact ⟨isInner_word (isName_iff.1 h).2, by decide, isInner_keyword q.type, by simp⟩

theorem isInner_parameters {ps : List Parameter} (h : ∀ p ∈ ps, isName p.name) :
    (∀ t ∈ Parameter.laterTokens ps, isInner t) ∧ ∀ t ∈ Parameter.listTokens ps, isInner t := by
  have hm : isInner (.mark ",") ∧ isInner (.mark ")") := by decide
  induction ps with
  | nil => simp [Parameter.laterTokens, Parameter.listTokens, hm]
  | cons p ps ih =>
    have hp := isInner_parameter (h p (by simp))
    have hps := (ih fun q hq => h q (by simp [hq])).1
    simp only [Parameter.laterTokens, Parameter.listTokens, List.forall_mem_cons,
      List.forall_mem_append]
    exact ⟨⟨hm.1, hp, hps⟩, hp, hps⟩

theorem isPhrase_signature {x : String} (hx : isName x) (t : Ty) {ps : List Parameter}
    (hps : ∀ p ∈ ps, isName p.name) : IsPhrase (signatureTokens x t ps) := by
  refine ⟨fun _ => rfl, ?_⟩
  simp only [List.forall_mem_cons, List.forall_mem_append]
  exact ⟨isInner_word (isName_iff.1 hx).2, by decide, (isInner_parameters hps).2, by decide,
    isInner_keyword t, by simp⟩

/-- A declaration with what follows the type. -/
theorem isPhrase_declaration {x : String} (hx : isName x) (t : Ty) {ts : List Token}
    (hts : ∀ u ∈ ts, isInner u) : IsPhrase (declarationTokens x t ++ ts) := by
  simp only [declarationTokens, List.cons_append, List.nil_append, IsPhrase, List.forall_mem_cons]
  exact ⟨fun _ => rfl, isInner_word (isName_iff.1 hx).2, by decide, isInner_keyword t, hts⟩

/-- The clauses in a body and the one that ends it. -/
theorem isPlain_body {ss : List Stmt} (ih : ∀ s ∈ ss, s.isWellFormed → ∀ c ∈ s.clauses, c.IsPlain)
    (hw : Stmt.areWellFormed ss) : ∀ c ∈ Stmt.listClauses ss ++ [.closing], c.IsPlain := by
  induction ss with
  | nil => simp [Stmt.listClauses, IsPlain]
  | cons s ss ihs =>
    simp only [Stmt.areWellFormed, Bool.and_eq_true] at hw
    rw [Stmt.listClauses, List.append_assoc, List.forall_mem_append]
    exact ⟨ih s (by simp) hw.1, ihs (fun t ht => ih t (by simp [ht])) hw.2⟩

theorem isPlain_clauses (s : Stmt) (hw : s.isWellFormed) : ∀ c ∈ s.clauses, c.IsPlain := by
  induction s using Stmt.induct with
  | function x t ps body k l ih =>
    simp only [Stmt.isWellFormed, Bool.and_eq_true, List.all_eq_true] at hw
    exact List.forall_mem_cons.2 ⟨isPhrase_signature hw.1.1 t hw.1.2, isPlain_body ih hw.2⟩
  | block ss l ih => exact List.forall_mem_cons.2 ⟨trivial, isPlain_body ih hw⟩
  | expression e l => exact List.forall_mem_singleton.2 (isPhrase_expression hw)
  | branch c s o l ihs iho =>
    simp only [Stmt.isWellFormed, Bool.and_eq_true, Stmt.optionIsWellFormed_iff] at hw
    have hc : Balanced c.tokens := balanced_tokens c ((Expr.isPlain_iff c).1 hw.1.1).1
    have ho : ∀ d ∈ Stmt.elseClauses o, d.IsPlain := by
      cases o with
      | none => simp [Stmt.elseClauses]
      | some t => exact List.forall_mem_cons.2 ⟨trivial, iho t rfl (hw.2 t rfl)⟩
    exact List.forall_mem_cons.2 ⟨hc, List.forall_mem_append.2 ⟨ihs hw.1.2, ho⟩⟩
  | print e l => exact List.forall_mem_singleton.2 ⟨fun _ => rfl, isInner_of_isPlain hw⟩
  | declare x t e l =>
    simp only [Stmt.isWellFormed, Bool.and_eq_true] at hw
    cases e with
    | none =>
      have hx := isPhrase_declaration hw.1 t (List.forall_mem_nil _)
      exact List.forall_mem_singleton.2 hx
    | some e =>
      refine List.forall_mem_singleton.2 (isPhrase_declaration hw.1 t ?_)
      exact List.forall_mem_cons.2 ⟨by decide, isInner_of_isPlain hw.2⟩
  | loop c body k l ih =>
    simp only [Stmt.isWellFormed, Bool.and_eq_true] at hw
    have hc : IsPhrase (.word "while" :: enclose c.tokens) :=
      ⟨fun _ => rfl, isInner_enclose (isInner_of_isPlain hw.1)⟩
    exact List.forall_mem_cons.2 ⟨hc, isPlain_body ih hw.2⟩
  | ret e l =>
    cases e with
    | none => exact List.forall_mem_singleton.2 ⟨fun _ => rfl, by simp⟩
    | some e => exact List.forall_mem_singleton.2 ⟨fun _ => rfl, isInner_of_isPlain hw⟩

/-- The clauses of a well-formed program are split off its tokens. -/
theorem split_program {u : Program} (hw : u.isWellFormed) :
    split (listTokens (Stmt.listClauses u)) = Stmt.listClauses u := by
  have hbody := isPlain_body (fun s _ => isPlain_clauses s) hw
  exact split_listTokens fun c hc => hbody c (List.mem_append_left _ hc)

end Clause

end TreeWalk
