import TreeWalk.Proofs.Source.Reader

/-! The text of an expression determines its skeleton. The reader undoes the tokens of every well-formed
expression: read where an operand is due, they have the effect of the skeleton itself, once the
operators that bind at least as tightly as the expression are ended. Parentheses are written exactly
where an operand binds looser than its place requires, so the frame around an operand never ends too
early. -/

namespace TreeWalk.Source

open Printer

/-! ### Operators -/

theorem opPrecedence_bounds {op : String} (h : op ∈ binaryOperators ++ logicalOperators) :
    0 < opPrecedence op ∧ opPrecedence op < unaryPrecedence := by
  simp only [binaryOperators, logicalOperators, List.cons_append, List.nil_append, List.mem_cons,
    List.not_mem_nil, or_false] at h
  rcases h with rfl | rfl | rfl | rfl | rfl | rfl | rfl | rfl | rfl | rfl | rfl | rfl | rfl <;> decide

theorem step_due_unary (fs : List Frame) {op : String} (h : op ∈ unaryOperators) :
    Reader.step (.due fs) (.mark op) = .due (.unary op :: fs) := by
  simp only [unaryOperators, List.mem_cons, List.not_mem_nil, or_false] at h
  rcases h with rfl | rfl | rfl <;> rfl

theorem step_after_operator (fs : List Frame) (t : Skeleton) {op : String}
    (h : op ∈ binaryOperators ++ logicalOperators) :
    Reader.step (.after fs t) (.mark op) =
      (Reader.settle (opPrecedence op) (.after fs t)).leftOperand op := by
  simp only [binaryOperators, logicalOperators, List.cons_append, List.nil_append, List.mem_cons,
    List.not_mem_nil, or_false] at h
  rcases h with rfl | rfl | rfl | rfl | rfl | rfl | rfl | rfl | rfl | rfl | rfl | rfl | rfl <;> rfl

theorem wordSkeleton_of_isIdentifier {x : String} (h : isIdentifier x) :
    wordSkeleton x = .access x := by
  have hx : x ∉ constantWords := by
    unfold isIdentifier at h
    split at h
    · simp at h
    · simp only [Bool.and_eq_true, Bool.not_eq_true', List.contains_eq_mem,
        decide_eq_false_iff_not] at h
      exact h.2
  simp only [constantWords, List.mem_cons, List.not_mem_nil, or_false, not_or] at hx
  simp [wordSkeleton, hx]

/-! ### Readers that agree once operators are ended -/

/-- The two readers are the same once all that binds at least as tightly as `least` is ended. -/
def Agree (least : Nat) (r s : Reader) : Prop := r.settle least = s.settle least

theorem Agree.after {least : Nat} {r : Reader} {fs : List Frame} {t : Skeleton}
    (h : Agree least r (.after fs t)) :
    ∃ fs' t', r = .after fs' t' ∧ close least fs' t' = close least fs t := by
  cases r with
  | due fs' => simp [Agree, Reader.settle] at h
  | stuck => simp [Agree, Reader.settle] at h
  | after fs' t' =>
    simp only [Agree, Reader.settle, Reader.after.injEq] at h
    exact ⟨fs', t', rfl, Prod.ext h.1 h.2⟩

/-- Only what a reader is after its operators are ended matters to the next operator. -/
theorem Agree.step_operator {r : Reader} {fs : List Frame} {t : Skeleton} {op : String}
    (hop : op ∈ binaryOperators ++ logicalOperators) (h : Agree (opPrecedence op) r (.after fs t)) :
    r.step (.mark op) = Reader.step (.after fs t) (.mark op) := by
  obtain ⟨fs', t', rfl, hc⟩ := h.after
  rw [step_after_operator fs' t' hop, step_after_operator fs t hop]
  simp only [Reader.settle, hc]

theorem Agree.step_comma {r : Reader} {fs : List Frame} {t : Skeleton}
    (h : Agree assignPrecedence r (.after fs t)) :
    r.step (.mark ",") = (Reader.settle assignPrecedence (.after fs t)).nextArgument := by
  obtain ⟨fs', t', rfl, hc⟩ := h.after
  simp only [Reader.settle, ← hc]
  rfl

theorem Agree.step_parenthesis {r : Reader} {fs : List Frame} {t : Skeleton}
    (h : Agree assignPrecedence r (.after fs t)) :
    r.step (.mark ")") = (Reader.settle assignPrecedence (.after fs t)).closeParenthesis := by
  obtain ⟨fs', t', rfl, hc⟩ := h.after
  simp only [Reader.settle, ← hc]
  rfl

/-! ### Places for an operand -/

/-- The innermost frame takes an operand that binds at least as tightly as `p`. -/
def Accepts : List Frame → Nat → Prop
  | .unary _ :: _, p => unaryPrecedence ≤ p
  | .infixed _ op :: _, p => opPrecedence op < p
  | _, _ => True

theorem Accepts.mono {fs : List Frame} {p q : Nat} (h : Accepts fs p) (hpq : p ≤ q) :
    Accepts fs q := by
  unfold Accepts at h ⊢
  split <;> simp only at h ⊢ <;> omega

/-- A frame that takes the result of an operator does not end before that operator. -/
theorem close_of_accepts {fs : List Frame} {op : String} (t : Skeleton)
    (hop : op ∈ binaryOperators ++ logicalOperators) (h : Accepts fs (opPrecedence op)) :
    close (opPrecedence op) fs t = (fs, t) := by
  obtain ⟨hpos, hlt⟩ := opPrecedence_bounds hop
  cases fs with
  | nil => rfl
  | cons f fs =>
    cases f with
    | group => rfl
    | call g done => rfl
    | assign x =>
      rw [close, if_neg]
      simp only [assignPrecedence]
      omega
    | unary o =>
      simp only [Accepts] at h
      omega
    | infixed left o =>
      simp only [Accepts] at h
      rw [close, if_neg (by omega)]

/-- Where an operand of precedence at least `p` is due, the tokens have the effect of `t`. -/
def ReadsAs (ts : List Token) (p : Nat) (t : Skeleton) : Prop :=
  ∀ fs, Accepts fs p → ∀ least ≤ p, Agree least (Reader.run (.due fs) ts) (.after fs t)

theorem ReadsAs.enclose {ts : List Token} {p : Nat} {t : Skeleton} (h : ReadsAs ts p t)
    (fs : List Frame) : Reader.run (.due fs) (enclose ts) = .after fs t := by
  have hg : Agree assignPrecedence (Reader.run (.due (.group :: fs)) ts) (.after (.group :: fs) t) :=
    h (.group :: fs) trivial assignPrecedence (Nat.zero_le p)
  have ho : Reader.step (.due fs) (.mark "(") = .due (.group :: fs) := rfl
  rw [Source.enclose, Reader.run_cons, ho, Reader.run_append, Reader.run_cons, hg.step_parenthesis]
  rfl

/-- In parentheses or not, the tokens of an operand fit its place. -/
theorem ReadsAs.fit {e : Expr} {t : Skeleton} (h : ReadsAs e.tokens (precedence e) t) (p : Nat) :
    ReadsAs (fitTokens e p e.tokens) p t := by
  intro fs hfs least hl
  unfold fitTokens
  split_ifs with hp
  · rw [h.enclose fs]
    rfl
  · exact h fs (hfs.mono (by omega)) least (by omega)

theorem ReadsAs.unary {ts : List Token} {t : Skeleton} {op : String} (hop : op ∈ unaryOperators)
    (h : ReadsAs ts unaryPrecedence t) : ReadsAs (.mark op :: ts) unaryPrecedence (.unary op t) := by
  intro fs hfs least hl
  have ht : Agree least (Reader.run (.due (.unary op :: fs)) ts) (.after (.unary op :: fs) t) :=
    h (.unary op :: fs) (Nat.le_refl unaryPrecedence) least hl
  rw [Reader.run_cons, step_due_unary fs hop]
  exact ht

theorem ReadsAs.infixed {ts us : List Token} {a b : Skeleton} {op : String}
    (hop : op ∈ binaryOperators ++ logicalOperators) (ha : ReadsAs ts (opPrecedence op) a)
    (hb : ReadsAs us (opPrecedence op + 1) b) :
    ReadsAs (ts ++ .mark op :: us) (opPrecedence op) (join a op b) := by
  intro fs hfs least hl
  have hleft : Reader.step (Reader.run (.due fs) ts) (.mark op) = .due (.infixed a op :: fs) := by
    rw [(ha fs hfs _ (Nat.le_refl _)).step_operator hop, step_after_operator fs a hop, Reader.settle,
      close_of_accepts a hop hfs]
    rfl
  have hright : Agree least (Reader.run (.due (.infixed a op :: fs)) us)
      (.after (.infixed a op :: fs) b) :=
    hb (.infixed a op :: fs) (Nat.lt_succ_self (opPrecedence op)) least (by omega)
  -- The operator itself is among what is ended, as it binds at least as tightly as `least`.
  have hclose : Agree least (.after (.infixed a op :: fs) b) (.after fs (join a op b)) := by
    simp [Agree, Reader.settle, close, hl]
  rw [Reader.run_append, Reader.run_cons, hleft]
  exact hright.trans hclose

/-! ### Calls -/

theorem run_laterTokens (es : List Expr)
    (h : ∀ e ∈ es, ReadsAs e.tokens (precedence e) e.skeleton) {r : Reader} {fs : List Frame}
    {f : String} {done : List Skeleton} {t : Skeleton}
    (hr : Agree assignPrecedence r (.after (.call f done :: fs) t)) :
    r.run (Expr.laterTokens es) = .after fs (.call f (done ++ t :: Expr.skeletons es)) := by
  induction es generalizing r done t with
  | nil =>
    rw [Expr.laterTokens, Reader.run_cons, hr.step_parenthesis]
    rfl
  | cons e es ih =>
    have he := h e (by simp) (.call f (done ++ [t]) :: fs) trivial assignPrecedence (Nat.zero_le _)
    have hs : r.step (.mark ",") = .due (.call f (done ++ [t]) :: fs) := hr.step_comma
    rw [Expr.laterTokens, Reader.run_cons, hs, Reader.run_append,
      ih (fun e' h' => h e' (by simp [h'])) he]
    simp [Expr.skeletons]

theorem run_argumentTokens (es : List Expr)
    (h : ∀ e ∈ es, ReadsAs e.tokens (precedence e) e.skeleton) (fs : List Frame) (f : String) :
    Reader.run (.due (.call f [] :: fs)) (Expr.argumentTokens es) =
      .after fs (.call f (Expr.skeletons es)) := by
  cases es with
  | nil => rfl
  | cons e es =>
    have he := h e (by simp) (.call f [] :: fs) trivial assignPrecedence (Nat.zero_le _)
    rw [Expr.argumentTokens, Reader.run_append,
      run_laterTokens es (fun e' h' => h e' (by simp [h'])) he]
    rfl

/-! ### Expressions -/

theorem readsAs_literal (v : Value) (p : Nat) (h : v.isDouble = false) :
    ReadsAs v.tokens p v.skeleton := by
  intro fs _ least _
  cases v with
  | integer n =>
    simp only [Value.tokens, Value.skeleton]
    split_ifs <;> rfl
  | double x => simp [Value.isDouble] at h
  | boolean b => cases b <;> rfl
  | string s => rfl
  | null => rfl

theorem join_binary (a b : Skeleton) {op : String} (h : op ∈ binaryOperators) :
    join a op b = .binary a op b := by
  have hop : op ∉ logicalOperators := by
    simp only [binaryOperators, List.mem_cons, List.not_mem_nil, or_false] at h
    rcases h with rfl | rfl | rfl | rfl | rfl | rfl | rfl | rfl | rfl | rfl | rfl <;> decide
  rw [join, if_neg hop]

/-- The tokens of a well-formed expression read as its skeleton. -/
theorem readsAs_tokens (e : Expr) (h : e.isWellFormed) :
    ReadsAs e.tokens (precedence e) e.skeleton := by
  induction e using Expr.induct with
  | literal v l => exact readsAs_literal v _ (by simpa [Expr.isWellFormed] using h)
  | grouping e l ih =>
    intro fs _ least _
    rw [Expr.tokens, (ih h).enclose fs]
    rfl
  | unary op e l ih =>
    simp only [Expr.isWellFormed, Bool.and_eq_true, List.contains_eq_mem, decide_eq_true_eq] at h
    exact ((ih h.2).fit unaryPrecedence).unary h.1
  | binary a op b l iha ihb =>
    simp only [Expr.isWellFormed, Bool.and_eq_true, List.contains_eq_mem, decide_eq_true_eq] at h
    rw [Expr.skeleton, ← join_binary _ _ h.1.1]
    exact ReadsAs.infixed (List.mem_append_left _ h.1.1) ((iha h.1.2).fit _) ((ihb h.2).fit _)
  | logical a op b l iha ihb =>
    simp only [Expr.isWellFormed, Bool.and_eq_true, List.contains_eq_mem, decide_eq_true_eq] at h
    have hj : join a.skeleton op b.skeleton = .logical a.skeleton op b.skeleton := if_pos h.1.1
    rw [Expr.skeleton, ← hj]
    exact ReadsAs.infixed (List.mem_append_right _ h.1.1) ((iha h.1.2).fit _) ((ihb h.2).fit _)
  | access x l =>
    intro fs _ least _
    have hs : Reader.step (.due fs) (.word x) = .after fs (wordSkeleton x) := rfl
    rw [Expr.tokens, Reader.run_cons, hs, wordSkeleton_of_isIdentifier h]
    rfl
  | assign x e l ih =>
    simp only [Expr.isWellFormed, Bool.and_eq_true] at h
    intro fs _ least hl
    obtain rfl : least = assignPrecedence := Nat.le_zero.1 hl
    have hs : Reader.step (.due fs) (.word x) = .after fs (wordSkeleton x) := rfl
    have he := ih h.2 (.assign x :: fs) trivial assignPrecedence (Nat.zero_le _)
    rw [Expr.tokens, Reader.run_cons, hs, wordSkeleton_of_isIdentifier h.1]
    exact he
  | call f es l ih =>
    simp only [Expr.isWellFormed, Bool.and_eq_true, Expr.areWellFormed_iff] at h
    intro fs _ least _
    have hs : Reader.step (.due fs) (.word f) = .after fs (wordSkeleton f) := rfl
    have hp : Reader.step (.after fs (.access f)) (.mark "(") = .due (.call f [] :: fs) := rfl
    rw [Expr.tokens, Reader.run_cons, hs, wordSkeleton_of_isIdentifier h.1, Reader.run_cons, hp,
      run_argumentTokens es fun e he => ih e he (h.2 e he)]
    rfl

theorem read_tokens (e : Expr) (h : e.isWellFormed) : read e.tokens = some e.skeleton := by
  have hr := readsAs_tokens e h [] trivial assignPrecedence (Nat.zero_le _)
  rw [Agree] at hr
  rw [read, hr]
  rfl

end TreeWalk.Source

namespace TreeWalk.Expr

open Source

/-- The skeleton of an expression can be read off its text. -/
theorem read_scan_text (e : Expr) (h : e.isWellFormed) :
    (scan e.text).bind read = some e.skeleton := by
  rw [text_eq_spell, (spells_spell e h).scan]
  exact read_tokens e h

/-- Well-formed expressions with the same text are the same tree up to lines, groupings and the
spelling of negative literals. -/
theorem skeleton_eq_of_text_eq (e₁ e₂ : Expr) (h₁ : e₁.isWellFormed) (h₂ : e₂.isWellFormed)
    (h : e₁.text = e₂.text) : e₁.skeleton = e₂.skeleton := by
  have hs : some e₁.skeleton = some e₂.skeleton := by
    rw [← read_scan_text e₁ h₁, ← read_scan_text e₂ h₂, h]
  exact Option.some.inj hs

/-- A negative literal is spelled as a negation, and a grouping as the parentheses that it needs. -/
theorem skeleton_eq_call_negative_grouped :
    let e₁ : Expr := .call "f" [.binary (.literal (.integer (-5)) 1) "-"
      (.binary (.grouping (.binary (.access "x" 2) "+" (.literal (.string "\"") 2) 2) 2) "*"
        (.literal (.integer 2) 3) 3) 1] 1
    let e₂ : Expr := .call "f" [.binary (.unary "-" (.literal (.integer 5) 1) 1) "-"
      (.binary (.binary (.access "x" 2) "+" (.literal (.string "\"") 2) 2) "*"
        (.literal (.integer 2) 3) 3) 1] 7
    e₁.isWellFormed ∧ e₂.isWellFormed ∧ e₁.text = e₂.text ∧ e₁.skeleton = e₂.skeleton := by
  intro e₁ e₂
  have h₁ : e₁.isWellFormed := by decide
  have h₂ : e₂.isWellFormed := by decide
  have h : e₁.text = e₂.text := by decide
  exact ⟨h₁, h₂, h, skeleton_eq_of_text_eq e₁ e₂ h₁ h₂ h⟩

end TreeWalk.Expr
