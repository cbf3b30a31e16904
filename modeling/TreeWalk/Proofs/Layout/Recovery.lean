import TreeWalk.Proofs.Layout.Splitting
import TreeWalk.Proofs.Layout.Squeeze

/-! Recovering the outline of a program from its text. A builder reads one clause at a time and keeps a
stack of the statements that are not complete. An `if` whose branch is complete stays on the stack, as an
`else` may follow, and any other clause settles it. So an `else` goes to the last `if` that has none, and
the outline that is built is the settled one. Programs whose texts differ only in layout hence have the
same settled outline, and the same outline unless a branch before an `else` ends with an `if` that has
none. -/

namespace TreeWalk

open Source Printer

namespace Outline

/-! ### Reading clauses -/

/-- The type that a word names. -/
def typeOf? (w : String) : Option Ty := Ty.all.find? (·.keyword == w)

theorem typeOf?_keyword (t : Ty) : typeOf? t.keyword = some t := by cases t <;> decide

def readDeclaration : List Token → Option Outline
  | [.word _, .word x, .mark _, .word w] => (typeOf? w).map (.declare x · none)
  | .word _ :: .word x :: .mark _ :: .word w :: .mark _ :: ts => do
    let t ← typeOf? w
    let e ← read ts
    return .declare x t (some e)
  | _ => none

/-- The statement that a sentence is. -/
def readSentence (ts : List Token) : Option Outline :=
  if ts.head? = some (.word "print") then (read ts.tail).map .print
  else if ts = [.word "return"] then some (.ret none)
  else if ts.head? = some (.word "return") then (read ts.tail).map fun e => .ret (some e)
  else if ts.head? = some (.word "var") then readDeclaration ts
  else (read ts).map .expression

/-- What a brace opens. -/
inductive Opener where
  | block
  | function (name : String) (type : Ty) (parameters : List (String × Ty))
  | loop (condition : Skeleton)

/-- A statement with a body. -/
def Opener.outline : Opener → List Outline → Outline
  | .block, ss => .block ss
  | .function x t ps, body => .function x t ps body
  | .loop c, body => .loop c body

def word? : Token → Option String
  | .word w => some w
  | .number _ | .quoted _ | .mark _ => none

/-- Names with their types, and the type after them. -/
def readTyped : List String → Option (List (String × Ty) × Ty)
  | [] => none
  | [w] => (typeOf? w).map ([], ·)
  | x :: w :: ws => do
    let t ← typeOf? w
    let (ps, result) ← readTyped ws
    return ((x, t) :: ps, result)

/-- What a header opens. The marks of a signature say nothing that its words do not. -/
def readHeader (ts : List Token) : Option Opener :=
  if ts.head? = some (.word "while") then (read ts.tail).map .loop
  else
    match ts.filterMap word? with
    | "func" :: x :: ws => (readTyped ws).map fun typed => .function x typed.2 typed.1
    | _ => none

/-! ### Building -/

/-- Something that is not complete. -/
inductive Frame where
  | body (opener : Opener) (done : List Outline)
  | thenDue (condition : Skeleton)
  /-- An `if` that may still get an `else`. -/
  | thenDone (condition : Skeleton) (thenBranch : Outline)
  | elseDue (condition : Skeleton) (thenBranch : Outline)

namespace Frame

/-- Adds a statement after which no `else` can come but for what it stands in. -/
def complete (t : Outline) : List Frame → List Frame
  | .body o done :: fs => .body o (done ++ [t]) :: fs
  | .thenDue c :: fs => .thenDone c t :: fs
  | .elseDue c s :: fs => complete (.branch c s (some t)) fs
  | .thenDone _ _ :: _ | [] => []

/-- Adds a statement after which no `else` comes. -/
def finish (t : Outline) : List Frame → List Frame
  | .body o done :: fs => .body o (done ++ [t]) :: fs
  | .thenDue c :: fs => finish (.branch c t none) fs
  | .elseDue c s :: fs => finish (.branch c s (some t)) fs
  | .thenDone _ _ :: _ | [] => []

/-- Ends the statements that waited for an `else`. -/
def settle : List Frame → List Frame
  | .thenDone c t :: fs => finish (.branch c t none) fs
  | fs => fs

/-- Reads a clause. No frames are left of a text that is not understood. -/
def step (fs : List Frame) : Clause → List Frame
  | .sentence ts => (readSentence ts).elim [] fun t => complete t (settle fs)
  | .header ts => (readHeader ts).elim [] fun o => .body o [] :: settle fs
  | .condition ts => (read ts).elim [] fun c => .thenDue c :: settle fs
  | .otherwise =>
    match fs with
    | .thenDone c t :: fs => .elseDue c t :: fs
    | _ => []
  | .opening => .body .block [] :: settle fs
  | .closing =>
    match settle fs with
    | .body o done :: fs => complete (o.outline done) fs
    | _ => []

def run (fs : List Frame) (cs : List Clause) : List Frame := cs.foldl step fs

@[simp] theorem run_nil (fs : List Frame) : run fs [] = fs := rfl

@[simp] theorem run_cons (fs : List Frame) (c : Clause) (cs : List Clause) :
    run fs (c :: cs) = run (step fs c) cs := rfl

@[simp] theorem run_append (fs : List Frame) (cs ds : List Clause) :
    run fs (cs ++ ds) = run (run fs cs) ds := List.foldl_append

/-- The frames after a statement: an `if` at its end waits for an `else`. -/
def after (fs : List Frame) : Outline → List Frame
  | .branch c t none => after (.thenDue c :: fs) t
  | .branch c t (some e) => after (.elseDue c t :: fs) e
  | t => complete t fs

theorem settle_complete (t : Outline) (fs : List Frame) : settle (complete t fs) = finish t fs := by
  induction fs generalizing t with
  | nil => rfl
  | cons f fs ih =>
    cases f with
    | elseDue c s => exact ih _
    | _ => rfl

theorem after_other {fs : List Frame} {t : Outline} (h : ∀ c s e, t ≠ .branch c s e) :
    after fs t = complete t fs := by
  cases t with
  | branch c s e => exact absurd rfl (h c s e)
  | _ => rfl

theorem settle_after (fs : List Frame) (t : Outline) : settle (after fs t) = finish t fs := by
  induction t using Outline.endInduct generalizing fs with
  | lone c t ih => exact ih (.thenDue c :: fs)
  | both c t e ih => exact ih (.elseDue c t :: fs)
  | other t h => rw [after_other h, settle_complete]

/-- Nothing waits at the end of a statement that ends with no open `if`. -/
theorem after_of_isOpen_eq_false {fs : List Frame} {t : Outline} (h : t.isOpen = false) :
    after fs t = complete t fs := by
  induction t using Outline.endInduct generalizing fs with
  | lone c t => simp [isOpen] at h
  | both c t e ih =>
    rw [isOpen] at h
    exact ih h
  | other t hother => exact after_other hother

/-- An `else` after a statement goes to the `if` that `attach` gives it to. -/
theorem step_otherwise (fs : List Frame) {t : Outline} (h : t.isOpen) :
    ∃ c s gs, step (after fs t) .otherwise = .elseDue c s :: gs ∧
      ∀ e, after (.elseDue c s :: gs) e = after fs (attach e t) := by
  induction t using Outline.endInduct generalizing fs with
  | lone c t ih =>
    cases ht : t.isOpen with
    | true =>
      obtain ⟨d, s, gs, hstep, hafter⟩ := ih (.thenDue c :: fs) ht
      refine ⟨d, s, gs, hstep, fun e => ?_⟩
      rw [hafter, attach, if_pos ht, after]
    | false =>
      refine ⟨c, t, fs, ?_, fun e => ?_⟩
      · rw [after, after_of_isOpen_eq_false ht]
        rfl
      · rw [attach, if_neg (by simp [ht]), after.eq_def fs]
  | both c t e ih =>
    rw [isOpen] at h
    obtain ⟨d, s, gs, hstep, hafter⟩ := ih (.elseDue c t :: fs) h
    refine ⟨d, s, gs, hstep, fun e => ?_⟩
    rw [hafter, attach, after.eq_def fs]
  | other t hother =>
    cases t with
    | branch c s e => exact absurd rfl (hother c s e)
    | _ => simp [isOpen] at h

end Frame

/-! ### Clauses of statements -/

theorem readSentence_print {e : Expr} (h : e.isWellFormed) :
    readSentence (.word "print" :: e.tokens) = some (.print e.skeleton) := by
  simp [readSentence, read_tokens e h]

theorem readSentence_return {e : Expr} (h : e.isWellFormed) :
    readSentence (.word "return" :: e.tokens) = some (.ret (some e.skeleton)) := by
  simp [readSentence, read_tokens e h, Clause.tokens_ne_nil h]

theorem readSentence_declaration (x : String) (t : Ty) :
    readSentence (declarationTokens x t) = some (.declare x t none) := by
  simp [readSentence, declarationTokens, readDeclaration, typeOf?_keyword]

theorem readSentence_initialized (x : String) (t : Ty) {e : Expr} (h : e.isWellFormed) :
    readSentence (declarationTokens x t ++ .mark "=" :: e.tokens) =
      some (.declare x t (some e.skeleton)) := by
  simp [readSentence, declarationTokens, readDeclaration, typeOf?_keyword, read_tokens e h]

/-- A sentence that starts with no keyword is an expression. -/
theorem readSentence_expression {e : Expr} (h : e.isPlain) :
    readSentence e.tokens = some (.expression e.skeleton) := by
  have hhead (w : String) (hw : w ∈ keywords) : e.tokens.head? ≠ some (.word w) := by
    intro heq
    have hinner := Clause.isInner_of_isPlain h _ (List.mem_of_mem_head? heq)
    simp [Clause.isInner, hw] at hinner
  have hret : e.tokens ≠ [.word "return"] := by
    intro heq
    exact hhead "return" (by decide) (by rw [heq]; rfl)
  simp [readSentence, hhead "print" (by decide), hhead "return" (by decide), hhead "var" (by decide),
    hret, read_tokens e ((Expr.isPlain_iff e).1 h).1]

theorem readHeader_loop {c : Expr} (h : c.isWellFormed) :
    readHeader (.word "while" :: enclose c.tokens) = some (.loop c.skeleton) := by
  have hread : read (enclose c.tokens) = some c.skeleton := read_tokens (.grouping c 0) h
  simp [readHeader, hread]

/-- The words of a parameter list. -/
def parameterWords (ps : List Parameter) : List String := ps.flatMap fun p => [p.name, p.type.keyword]

theorem filterMap_laterTokens (ps : List Parameter) :
    (Parameter.laterTokens ps).filterMap word? = parameterWords ps := by
  induction ps with
  | nil => rfl
  | cons p ps ih =>
    rw [parameterWords] at ih ⊢
    simp [Parameter.laterTokens, Parameter.tokens, List.filterMap_cons, word?, ih]

theorem filterMap_listTokens (ps : List Parameter) :
    (Parameter.listTokens ps).filterMap word? = parameterWords ps := by
  cases ps with
  | nil => rfl
  | cons p ps =>
    simp [Parameter.listTokens, Parameter.tokens, List.filterMap_cons, word?, filterMap_laterTokens,
      parameterWords]

theorem readTyped_parameterWords (ps : List Parameter) (t : Ty) :
    readTyped (parameterWords ps ++ [t.keyword]) = some (ps.map Parameter.outline, t) := by
  induction ps with
  | nil => simp [parameterWords, readTyped, typeOf?_keyword]
  | cons p ps ih =>
    rw [parameterWords] at ih
    simp [parameterWords, readTyped, typeOf?_keyword, ih, Parameter.outline]

theorem readHeader_signature (x : String) (t : Ty) (ps : List Parameter) :
    readHeader (signatureTokens x t ps) = some (.function x t (ps.map Parameter.outline)) := by
  have hwords : (signatureTokens x t ps).filterMap word? =
      "func" :: x :: (parameterWords ps ++ [t.keyword]) := by
    simp [signatureTokens, List.filterMap_cons, word?, filterMap_listTokens]
  have hwhile : (signatureTokens x t ps).head? ≠ some (.word "while") := by simp [signatureTokens]
  simp [readHeader, hwords, hwhile, readTyped_parameterWords]

/-! ### Statements -/

namespace Frame

/-- The clauses of the statement have the effect of its settled outline. -/
def Builds (s : Stmt) : Prop :=
  s.isWellFormed → ∀ fs, run fs s.clauses = after (settle fs) s.outline.settled

theorem run_listClauses {ss : List Stmt} (h : ∀ s ∈ ss, Builds s) (hw : ∀ s ∈ ss, s.isWellFormed)
    {fs gs : List Frame} {o : Opener} {done : List Outline} (hfs : settle fs = .body o done :: gs) :
    settle (run fs (Stmt.listClauses ss)) =
      .body o (done ++ settledList (Stmt.outlines ss)) :: gs := by
  induction ss generalizing fs done with
  | nil => simpa [Stmt.listClauses, Stmt.outlines, settledList] using hfs
  | cons s ss ih =>
    have hs : run fs s.clauses = after (.body o done :: gs) s.outline.settled := by
      rw [h s (by simp) (hw s (by simp)), hfs]
    have hnext : settle (run fs s.clauses) = .body o (done ++ [s.outline.settled]) :: gs := by
      rw [hs, settle_after]
      rfl
    rw [Stmt.listClauses, run_append,
      ih (fun t ht => h t (by simp [ht])) (fun t ht => hw t (by simp [ht])) hnext]
    simp [Stmt.outlines, settledList]

/-- The clauses of a body, after the one that opens it. -/
theorem run_body {ss : List Stmt} (h : ∀ s ∈ ss, Builds s) (hw : Stmt.areWellFormed ss)
    (o : Opener) (fs : List Frame) :
    run (.body o [] :: fs) (Stmt.listClauses ss ++ [.closing]) =
      complete (o.outline (settledList (Stmt.outlines ss))) fs := by
  have hopen : settle (.body o [] :: fs) = .body o [] :: fs := rfl
  have hlist := run_listClauses h ((Stmt.areWellFormed_iff ss).1 hw) hopen
  rw [run_append, run_cons, run_nil, step, hlist, List.nil_append]

theorem run_sentence {ts : List Token} {t : Outline} (h : readSentence ts = some t)
    (fs : List Frame) : run fs [.sentence ts] = complete t (settle fs) := by
  simp [step, h]

theorem builds (s : Stmt) : Builds s := by
  induction s using Stmt.induct with
  | function x t ps body k l ih =>
    intro hw fs
    simp only [Stmt.isWellFormed, Bool.and_eq_true] at hw
    have hstep : step fs (.header (signatureTokens x t ps)) =
        .body (.function x t (ps.map Parameter.outline)) [] :: settle fs := by
      simp [step, readHeader_signature]
    rw [Stmt.clauses, run_cons, hstep, run_body ih hw.2, Stmt.outline, settled, after_other (by simp)]
    rfl
  | block ss l ih =>
    intro hw fs
    rw [Stmt.clauses, run_cons, step, run_body ih hw, Stmt.outline, settled, after_other (by simp)]
    rfl
  | expression e l =>
    intro hw fs
    rw [Stmt.clauses, run_sentence (readSentence_expression hw), Stmt.outline, settled,
      after_other (by simp)]
  | branch c s o l ihs iho =>
    intro hw fs
    simp only [Stmt.isWellFormed, Bool.and_eq_true, Stmt.optionIsWellFormed_iff] at hw
    have hcond : step fs (.condition c.tokens) = .thenDue c.skeleton :: settle fs := by
      simp [step, read_tokens c ((Expr.isPlain_iff c).1 hw.1.1).1]
    -- After the branch everything is as if there were no `else`.
    have hthen : run fs (.condition c.tokens :: s.clauses) =
        after (settle fs) (.branch c.skeleton s.outline.settled none) := by
      rw [run_cons, hcond, ihs hw.1.2, after, settle]
      simp
    rw [Stmt.clauses, ← List.cons_append, run_append, hthen]
    cases o with
    | none => rfl
    | some t =>
      have hopen : (Outline.branch c.skeleton s.outline.settled none).isOpen := rfl
      obtain ⟨d, b, gs, hstep, hafter⟩ := step_otherwise (settle fs) hopen
      rw [Stmt.elseClauses, run_cons, hstep, iho t rfl (hw.2 t rfl), settle, hafter]
      · rfl
      · simp
  | print e l =>
    intro hw fs
    have he := ((Expr.isPlain_iff e).1 hw).1
    rw [Stmt.clauses, run_sentence (readSentence_print he), Stmt.outline, settled, after_other (by simp)]
  | declare x t e l =>
    intro hw fs
    simp only [Stmt.isWellFormed, Bool.and_eq_true] at hw
    cases e with
    | none =>
      rw [Stmt.clauses, run_sentence (readSentence_declaration x t), Stmt.outline, settled,
        after_other (by simp)]
      rfl
    | some e =>
      have he := ((Expr.isPlain_iff e).1 hw.2).1
      rw [Stmt.clauses, run_sentence (readSentence_initialized x t he), Stmt.outline, settled,
        after_other (by simp)]
      rfl
  | loop c body k l ih =>
    intro hw fs
    simp only [Stmt.isWellFormed, Bool.and_eq_true] at hw
    have hstep : step fs (.header (.word "while" :: enclose c.tokens)) =
        .body (.loop c.skeleton) [] :: settle fs := by
      simp [step, readHeader_loop ((Expr.isPlain_iff c).1 hw.1).1]
    rw [Stmt.clauses, run_cons, hstep, run_body ih hw.2, Stmt.outline, settled, after_other (by simp)]
    rfl
  | ret e l =>
    intro hw fs
    cases e with
    | none => rfl
    | some e =>
      have he := ((Expr.isPlain_iff e).1 hw).1
      rw [Stmt.clauses, run_sentence (readSentence_return he), Stmt.outline, settled,
        after_other (by simp)]
      rfl

end Frame

/-- The outlines that clauses are read as. -/
def ofClauses? (cs : List Clause) : Option (List Outline) :=
  match Frame.settle (Frame.run [.body .block []] cs) with
  | [.body .block done] => some done
  | _ => none

theorem ofClauses?_listClauses {u : Program} (hw : u.isWellFormed) :
    ofClauses? (Stmt.listClauses u) = some (settledList u.outline) := by
  have hopen : Frame.settle [.body .block []] = [.body .block []] := rfl
  have hrun := Frame.run_listClauses (fun s _ => Frame.builds s) ((Stmt.areWellFormed_iff u).1 hw) hopen
  rw [ofClauses?, hrun]
  rfl

end Outline

/-! ### Programs -/

namespace Program

/-- The settled outline of a program can be read off its text, whatever the layout. -/
theorem read_squeeze_print {u : Program} (hw : u.isWellFormed) (width : Nat) :
    (scan (squeeze (u.print width))).bind (fun ts => Outline.ofClauses? (Clause.split ts)) =
      some (Outline.settledList u.outline) := by
  rw [scan_squeeze, Program.scan_print hw, Option.bind_some, Clause.split_program hw,
    Outline.ofClauses?_listClauses hw]

/-- Well-formed programs whose texts differ only in layout have the same settled outline. They are the
same tree up to lines, groupings and the spelling of negative literals if in both of them no branch
before an `else` ends with an `if` that has none. -/
theorem outline_eq_of_squeeze_print_eq (u₁ u₂ : Program) (width₁ width₂ : Nat)
    (h₁ : u₁.isWellFormed) (h₂ : u₂.isWellFormed)
    (h : squeeze (u₁.print width₁) = squeeze (u₂.print width₂)) :
    Outline.settledList u₁.outline = Outline.settledList u₂.outline ∧
      (Outline.areSettled u₁.outline → Outline.areSettled u₂.outline → u₁.outline = u₂.outline) := by
  have hread : some (Outline.settledList u₁.outline) = some (Outline.settledList u₂.outline) := by
    rw [← read_squeeze_print h₁ width₁, ← read_squeeze_print h₂ width₂, h]
  have heq := Option.some.inj hread
  refine ⟨heq, fun hs₁ hs₂ => ?_⟩
  calc u₁.outline = Outline.settledList u₁.outline :=
        (Outline.settledList_of_areSettled _ hs₁).symm
    _ = Outline.settledList u₂.outline := heq
    _ = u₂.outline := Outline.settledList_of_areSettled _ hs₂

/-- An `else` of the inner of two branches without braces, and a string that has blanks. -/
theorem outline_eq_inner_else :
    let body : List Stmt := [.print (.literal (.string " \"  ") 4) 4]
    let u₁ : Program := [.branch (.access "a" 1) (.branch (.literal (.integer (-1)) 1) (.ret none 2)
      (some (.block body 3)) 2) none 1]
    let u₂ : Program := [.branch (.access "a" 7) (.branch (.unary "-" (.literal (.integer 1) 7) 7)
      (.ret none 7) (some (.block body 7)) 7) none 7]
    (u₁.isWellFormed ∧ u₂.isWellFormed ∧ squeeze (u₁.print 4) = squeeze (u₂.print 0)) ∧
      u₁.outline = u₂.outline := by
  intro body u₁ u₂
  have h₁ : u₁.isWellFormed := by decide
  have h₂ : u₂.isWellFormed := by decide
  have hp₁ : u₁.print 4 = "if (a)\n    if (-1)\n        return;\n    else \x7b\n" ++
      "        print \" \\\"  \";\n    \x7d\n" := by
    decide +kernel
  have hp₂ : u₂.print 0 = "if (a)\nif (-1)\nreturn;\nelse \x7b\nprint \" \\\"  \";\n\x7d\n" := by
    decide +kernel
  have h : squeeze (u₁.print 4) = squeeze (u₂.print 0) := by
    rw [hp₁, hp₂]
    decide +kernel
  have hs₁ : Outline.areSettled u₁.outline := rfl
  have hs₂ : Outline.areSettled u₂.outline := rfl
  exact ⟨⟨h₁, h₂, h⟩, (outline_eq_of_squeeze_print_eq u₁ u₂ 4 0 h₁ h₂ h).2 hs₁ hs₂⟩

/-- An `else` of the outer `if` is printed as one of the inner `if` but for the blanks before it. -/
theorem squeeze_print_dangling_else :
    let inner (o : Option Stmt) : Stmt := .branch (.access "b" 2) (.print (.access "x" 3) 3) o 2
    let last : Stmt := .print (.access "y" 4) 4
    let u₁ : Program := [.branch (.access "a" 1) (inner none) (some last) 1]
    let u₂ : Program := [.branch (.access "a" 1) (inner (some last)) none 1]
    u₁.isWellFormed ∧ u₂.isWellFormed ∧ squeeze (u₁.print 4) = squeeze (u₂.print 4) ∧
      u₁.outline ≠ u₂.outline := by
  intro inner last u₁ u₂
  have h₁ : u₁.isWellFormed := by decide
  have h₂ : u₂.isWellFormed := by decide
  have hp₁ : u₁.print 4 = "if (a)\n    if (b)\n        print x;\nelse\n    print y;\n" := by
    decide +kernel
  have hp₂ : u₂.print 4 = "if (a)\n    if (b)\n        print x;\n    else\n        print y;\n" := by
    decide +kernel
  have h : squeeze (u₁.print 4) = squeeze (u₂.print 4) := by
    have hs₁ : squeeze "if (a)\n    if (b)\n        print x;\nelse\n    print y;\n" =
        "if (a) if (b) print x; else print y; " := by
      decide +kernel
    have hs₂ : squeeze "if (a)\n    if (b)\n        print x;\n    else\n        print y;\n" =
        "if (a) if (b) print x; else print y; " := by
      decide +kernel
    rw [hp₁, hp₂, hs₁, hs₂]
  exact ⟨h₁, h₂, h, nofun⟩

end Program

end TreeWalk
