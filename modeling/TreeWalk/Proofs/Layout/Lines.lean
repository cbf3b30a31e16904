import TreeWalk.Proofs.Source.Spelling

/-! The lines of a printed program. What the printer appends for a statement is a list of lines, each at
a depth of its own, and this list does not depend on the blanks per level. A branch in braces shares its
first line with the head of its statement and its last line with the `else` that may follow. -/

namespace TreeWalk

namespace Printer

/-- A line of source text, and the number of levels that it is indented by. -/
structure SourceLine where
  depth : Nat
  text : String
deriving DecidableEq, Repr

/-- The blanks before a line. -/
def indentation (width depth : Nat) : String := String.ofList (List.replicate (depth * width) ' ')

def SourceLine.render (width : Nat) (line : SourceLine) : String :=
  indentation width line.depth ++ line.text ++ "\n"

/-- Lines as they are written, with `width` blanks per level. -/
def render (width : Nat) (lines : List SourceLine) : String :=
  String.join (lines.map (SourceLine.render width))

@[simp] theorem render_nil (width : Nat) : render width [] = "" := rfl

@[simp] theorem render_cons (width : Nat) (line : SourceLine) (lines : List SourceLine) :
    render width (line :: lines) =
      indentation width line.depth ++ (line.text ++ ("\n" ++ render width lines)) := by
  simp [render, SourceLine.render, String.append_assoc]

@[simp] theorem render_append (width : Nat) (lines more : List SourceLine) :
    render width (lines ++ more) = render width lines ++ render width more := by
  simp [render]

end Printer

open Printer

namespace Stmt

/-- What a branch adds to the line of its head. -/
def opening (branch : Stmt) : String := if branch.isBlock then " \x7b" else ""

/-- The line that ends a branch after which there is no `else`. -/
def closing (depth : Nat) (branch : Stmt) : List SourceLine :=
  if branch.isBlock then [⟨depth, "\x7d"⟩] else []

/-- How an `else` starts its line after a branch. -/
def elseHead (branch : Stmt) : String := if branch.isBlock then "\x7d" ++ " else" else "else"

mutual

/-- The lines of a statement at a depth. -/
def lines (depth : Nat) : Stmt → List SourceLine
  | .function name type parameters body _ _ =>
    ⟨depth, signature name type parameters ++ " \x7b"⟩ ::
      (listLines (depth + 1) body ++ [⟨depth, "\x7d"⟩])
  | .block ss _ => ⟨depth, "\x7b"⟩ :: (listLines (depth + 1) ss ++ [⟨depth, "\x7d"⟩])
  | .expression e _ => [⟨depth, spell e ++ ";"⟩]
  | .branch c s o _ =>
    ⟨depth, "if " ++ parenthesize (spell c) ++ s.opening⟩ ::
      ((match s with
        | .block ss _ => listLines (depth + 1) ss
        | other => other.lines (depth + 1)) ++
      (match o with
        | none => s.closing depth
        | some (.block ss _) =>
          ⟨depth, s.elseHead ++ " \x7b"⟩ :: (listLines (depth + 1) ss ++ [⟨depth, "\x7d"⟩])
        | some other => ⟨depth, s.elseHead⟩ :: other.lines (depth + 1)))
  | .print e _ => [⟨depth, "print " ++ spell e ++ ";"⟩]
  | .declare name type (some e) _ => [⟨depth, declaration name type ++ " = " ++ spell e ++ ";"⟩]
  | .declare name type none _ => [⟨depth, declaration name type ++ ";"⟩]
  | .loop c body _ _ =>
    ⟨depth, "while " ++ parenthesize (spell c) ++ " \x7b"⟩ ::
      (listLines (depth + 1) body ++ [⟨depth, "\x7d"⟩])
  | .ret (some e) _ => [⟨depth, "return " ++ spell e ++ ";"⟩]
  | .ret none _ => [⟨depth, "return;"⟩]

/-- The lines of statements that follow one another. -/
def listLines (depth : Nat) : List Stmt → List SourceLine
  | [] => []
  | s :: ss => s.lines depth ++ listLines depth ss

end

theorem lines_branch (depth : Nat) (c : Expr) (s : Stmt) (o : Option Stmt) (l : Line) :
    (Stmt.branch c s o l).lines depth =
      ⟨depth, "if " ++ parenthesize (spell c) ++ s.opening⟩ ::
        (listLines (depth + 1) s.branchStatements ++
          match o with
          | none => s.closing depth
          | some t =>
            ⟨depth, s.elseHead ++ t.opening⟩ ::
              (listLines (depth + 1) t.branchStatements ++ t.closing depth)) := by
  have hlone (s : Stmt) : listLines (depth + 1) [s] = s.lines (depth + 1) := by simp [listLines]
  rw [lines.eq_def]
  dsimp only
  congr 2
  · cases s with
    | block ss k => rfl
    | _ => exact (hlone _).symm
  · cases o with
    | none => rfl
    | some t =>
      cases t with
      | block ss k => rfl
      | _ => simp [opening, closing, isBlock, branchStatements, hlone]

end Stmt

namespace Printer

open Visit

/-! ### Running the printer -/

def append (p : Printer) (s : String) : Printer := { p with text := p.text ++ s }

@[simp] theorem append_append (p : Printer) (s t : String) :
    (p.append s).append t = p.append (s ++ t) := by
  simp [append, String.append_assoc]

@[simp] theorem append_width (p : Printer) (s : String) : (p.append s).width = p.width := rfl

@[simp] theorem append_level (p : Printer) (s : String) : (p.append s).level = p.level := rfl

/-- The action appends a text that depends on the width and the level alone. -/
def Writes (x : Visit Printer String Unit) (text : Nat → Nat → String) : Prop :=
  ∀ p ch, StateT.run x ⟨p, ch⟩ = ((), ⟨p.append (text p.width p.level), ch⟩)

variable (p : Printer) (ch : Channel String)

@[simp] theorem run_write (s : String) :
    StateT.run (write s) ⟨p, ch⟩ = ((), ⟨p.append s, ch⟩) := rfl

@[simp] theorem run_newline : StateT.run newline ⟨p, ch⟩ = ((), ⟨p.append "\n", ch⟩) := rfl

@[simp] theorem run_writeIndent :
    StateT.run writeIndent ⟨p, ch⟩ = ((), ⟨p.append (indentation p.width p.level), ch⟩) := rfl

@[simp] theorem run_writeLine (s : String) :
    StateT.run (writeLine s) ⟨p, ch⟩ = ((), ⟨p.append (render p.width [⟨p.level, s⟩]), ch⟩) := by
  simp [writeLine, String.append_assoc]

theorem run_indented {body : Visit Printer String Unit} {text : Nat → Nat → String}
    (h : Writes body text) :
    StateT.run (indented body) ⟨p, ch⟩ = ((), ⟨p.append (text p.width (p.level + 1)), ch⟩) := by
  have hb := h { p with level := p.level + 1 } ch
  simp only [indented, run_bind, run_update, hb]
  rfl

theorem run_braced {body : Visit Printer String Unit} {text : Nat → Nat → String}
    (h : Writes body text) :
    StateT.run (braced body) ⟨p, ch⟩ = ((), ⟨p.append (" \x7b" ++ ("\n" ++
      (text p.width (p.level + 1) ++ (indentation p.width p.level ++ "\x7d")))), ch⟩) := by
  simp [braced, run_indented _ _ h, String.append_assoc, -String.reduceAppend]

/-- Writes a branch after the head of its statement; gives whether its last line is left open. -/
def writeBranch : Stmt → Visit Printer String Bool
  | .block statements _ => do
    braced (stmts statements)
    pure true
  | other => do
    lone (stmt other)
    pure false

theorem stmt_branch (c : Expr) (s : Stmt) (o : Option Stmt) (l : Line) :
    stmt (.branch c s o l) = (do
      let text ← expr c
      writeIndent
      write ("if " ++ parenthesize text)
      let isOpen ← writeBranch s
      let isOpen ← match o with
        | none => pure isOpen
        | some t => do
          writeElse isOpen
          writeBranch t
      if isOpen then newline) := by
  rw [stmt.eq_def]
  dsimp only
  congr 1
  funext text
  cases o with
  | none => cases s <;> rfl
  | some t => cases s <;> cases t <;> rfl

/-- The statement is written as its lines. -/
abbrev WritesLines (s : Stmt) : Prop := Writes (stmt s) fun width depth => render width (s.lines depth)

theorem writes_stmts {ss : List Stmt} (h : ∀ s ∈ ss, WritesLines s) :
    Writes (stmts ss) fun width depth => render width (Stmt.listLines depth ss) := by
  induction ss with
  | nil =>
    intro p ch
    simp [stmts, Stmt.listLines, append]
  | cons s rest ih =>
    intro p ch
    have hs := h s List.mem_cons_self
    have hrest := ih fun t ht => h t (List.mem_cons_of_mem s ht)
    simp only [stmts, run_bind, hs p ch, hrest (p.append _) ch, append_append, append_width,
      append_level, Stmt.listLines, render_append]

theorem writeBranch_lone {s : Stmt} (h : s.isBlock = false) :
    writeBranch s = (do
      lone (stmt s)
      pure false) := by
  cases s with
  | block ss k => simp [Stmt.isBlock] at h
  | _ => rfl

theorem run_writeBranch {s : Stmt} (h : ∀ t ∈ s.branchStatements, WritesLines t) :
    StateT.run (writeBranch s) ⟨p, ch⟩ = (s.isBlock, ⟨p.append (s.opening ++ ("\n" ++
      (render p.width (Stmt.listLines (p.level + 1) s.branchStatements) ++
        if s.isBlock then indentation p.width p.level ++ "\x7d" else ""))), ch⟩) := by
  have hss := writes_stmts h
  cases hs : s.isBlock with
  | true =>
    obtain ⟨ss, k, rfl⟩ := Stmt.isBlock_iff.1 hs
    rw [Stmt.branchStatements] at hss
    rw [writeBranch, run_bind, run_braced p ch hss]
    simp [Stmt.opening, Stmt.isBlock, Stmt.branchStatements, -String.reduceAppend]
  | false =>
    rw [Stmt.branchStatements_lone hs] at hss ⊢
    -- A lone statement is written like the list of it alone.
    have hlone : Writes (stmt s) fun width depth => render width (Stmt.listLines depth [s]) := hss
    rw [writeBranch_lone hs, run_bind, lone, run_bind, run_newline, run_indented _ _ hlone]
    simp [Stmt.opening, hs]

/-- The last line of a branch is ended, or goes on with the `else` of its statement. -/
theorem render_closing (width depth : Nat) (s : Stmt) :
    render width (s.closing depth) =
      if s.isBlock then indentation width depth ++ ("\x7d" ++ "\n") else "" := by
  unfold Stmt.closing
  split <;> simp

theorem writesLines (s : Stmt) : WritesLines s := by
  induction s using Stmt.scopeInduct with
  | function x t ps body k l ih =>
    intro p ch
    have hbody := writes_stmts ih
    simp [stmt, run_braced _ _ hbody, Stmt.lines, String.append_assoc, -String.reduceAppend]
  | block ss l ih =>
    intro p ch
    have hss := writes_stmts ih
    simp [stmt, run_indented _ _ hss, Stmt.lines, String.append_assoc, -String.reduceAppend]
  | expression e l =>
    intro p ch
    simp [stmt, run_expr, Stmt.lines]
  | branch c s o l ihs iho =>
    intro p ch
    dsimp only
    rw [stmt_branch, Stmt.lines_branch]
    cases o with
    | none =>
      cases hs : s.isBlock <;>
        simp [run_expr, run_writeBranch _ _ ihs, render_closing, hs, String.append_assoc,
          -String.reduceAppend]
    | some t =>
      have iht := iho t rfl
      cases hs : s.isBlock <;> cases ht : t.isBlock <;>
        simp [run_expr, run_writeBranch _ _ ihs, run_writeBranch _ _ iht, render_closing, writeElse,
          Stmt.elseHead, hs, ht, String.append_assoc, -String.reduceAppend]
  | print e l =>
    intro p ch
    simp [stmt, run_expr, Stmt.lines]
  | declare x t e l =>
    intro p ch
    cases e <;> simp [stmt, run_expr, Stmt.lines]
  | loop c body k l ih =>
    intro p ch
    have hbody := writes_stmts ih
    simp [stmt, run_expr, run_braced _ _ hbody, Stmt.lines, String.append_assoc, -String.reduceAppend]
  | ret e l =>
    intro p ch
    cases e <;> simp [stmt, run_expr, Stmt.lines]

end Printer

/-! ### Programs -/

namespace Program

/-- The line between two top-level statements, if one of them is a function. -/
def separator (afterFunction : Option Bool) (s : Stmt) : List SourceLine :=
  match afterFunction with
  | some before => if before || s.isFunction then [⟨0, ""⟩] else []
  | none => []

/-- The lines of top-level statements; `afterFunction` says whether a function comes before. -/
def linesAfter (afterFunction : Option Bool) : Program → List SourceLine
  | [] => []
  | s :: rest => separator afterFunction s ++ (s.lines 0 ++ linesAfter (some s.isFunction) rest)

/-- The lines of a program. -/
def lines (u : Program) : List SourceLine := linesAfter none u

end Program

namespace Printer

open Visit

theorem indentation_zero (width : Nat) : indentation width 0 = "" := by simp [indentation]

theorem run_topLevel (afterFunction : Option Bool) (u : Program) {p : Printer} (hp : p.level = 0)
    (ch : Channel String) :
    StateT.run (topLevel afterFunction u) ⟨p, ch⟩ =
      ((), ⟨p.append (render p.width (Program.linesAfter afterFunction u)), ch⟩) := by
  induction u generalizing afterFunction p with
  | nil => simp [topLevel, Program.linesAfter, append]
  | cons s rest ih =>
    have hs (q : Printer) (hq : q.level = 0) : StateT.run (do
          stmt s
          topLevel (some s.isFunction) rest) ⟨q, ch⟩ =
        ((), ⟨q.append (render q.width
          (s.lines 0 ++ Program.linesAfter (some s.isFunction) rest)), ch⟩) := by
      rw [run_bind, writesLines s, ih (some s.isFunction) (by simp [hq])]
      simp [hq]
    cases afterFunction with
    | none =>
      rw [topLevel, hs p hp]
      simp [Program.linesAfter, Program.separator]
    | some before =>
      rw [topLevel]
      cases h : before || s.isFunction with
      | false =>
        rw [if_neg Bool.false_ne_true, hs p hp]
        simp [Program.linesAfter, Program.separator, h]
      | true =>
        rw [if_pos rfl, run_bind, run_newline, hs (p.append "\n") hp]
        simp [Program.linesAfter, Program.separator, h, indentation_zero]

/-! ### The end of the text -/

/-- The last line ends with a semicolon or a brace. -/
def Ended (ls : List SourceLine) : Prop :=
  ∃ init depth text mark, mark ∈ [";", "\x7d"] ∧ ls = init ++ [⟨depth, text ++ mark⟩]

theorem Ended.append {ls : List SourceLine} (h : Ended ls) (before : List SourceLine) :
    Ended (before ++ ls) := by
  obtain ⟨init, depth, text, mark, hmark, rfl⟩ := h
  exact ⟨before ++ init, depth, text, mark, hmark, (List.append_assoc ..).symm⟩

theorem Ended.cons {ls : List SourceLine} (h : Ended ls) (line : SourceLine) : Ended (line :: ls) :=
  h.append [line]

theorem ended_semicolon (depth : Nat) (text : String) : Ended [⟨depth, text ++ ";"⟩] :=
  ⟨[], depth, text, ";", by simp, rfl⟩

theorem ended_brace (depth : Nat) : Ended [⟨depth, "\x7d"⟩] :=
  ⟨[], depth, "", "\x7d", by simp, rfl⟩

/-- A branch ends with its own last statement or with the line that closes it. -/
theorem ended_branch {s : Stmt} (depth : Nat)
    (h : ∀ t ∈ s.branchStatements, ∀ depth, Ended (t.lines depth)) :
    Ended (Stmt.listLines (depth + 1) s.branchStatements ++ s.closing depth) := by
  cases hs : s.isBlock with
  | true =>
    rw [Stmt.closing, if_pos hs]
    exact (ended_brace depth).append _
  | false =>
    have hmem : s ∈ s.branchStatements := by simp [Stmt.branchStatements_lone hs]
    simpa [Stmt.branchStatements_lone hs, Stmt.listLines, Stmt.closing, hs] using h s hmem (depth + 1)

theorem ended_lines (s : Stmt) (depth : Nat) : Ended (s.lines depth) := by
  induction s using Stmt.scopeInduct generalizing depth with
  | function x t ps body k l ih | block ss l ih | loop c body k l ih =>
    rw [Stmt.lines]
    exact ((ended_brace depth).append _).cons _
  | expression e l | print e l =>
    rw [Stmt.lines]
    exact ended_semicolon _ _
  | branch c s o l ihs iho =>
    rw [Stmt.lines_branch]
    cases o with
    | none => exact (ended_branch depth ihs).cons _
    | some t => exact (((ended_branch depth (iho t rfl)).cons _).append _).cons _
  | declare x t e l =>
    cases e <;> rw [Stmt.lines] <;> exact ended_semicolon _ _
  | ret e l =>
    cases e with
    | none => exact ended_semicolon depth "return"
    | some e => exact ended_semicolon _ _

theorem ended_linesAfter (afterFunction : Option Bool) (u : Program) (hu : u ≠ []) :
    Ended (Program.linesAfter afterFunction u) := by
  induction u generalizing afterFunction with
  | nil => exact absurd rfl hu
  | cons s rest ih =>
    rw [Program.linesAfter]
    refine Ended.append ?_ _
    cases rest with
    | nil => simpa [Program.linesAfter] using ended_lines s 0
    | cons t rest => exact (ih (some s.isFunction) (by simp)).append _

theorem endLine_concat (cs : List Char) {c : Char} (hc : c ≠ '\n') :
    endLine (String.ofList (cs ++ [c, '\n'])) = String.ofList (cs ++ [c, '\n']) := by
  simp [endLine, hc]

/-- A text whose last line does not end with a line break of its own has one at its end already. -/
theorem endLine_render (width : Nat) {ls : List SourceLine} (h : Ended ls) :
    endLine (render width ls) = render width ls := by
  obtain ⟨init, depth, text, mark, hmark, rfl⟩ := h
  have hrender (c : Char) (hc : mark = String.ofList [c]) :
      render width (init ++ [⟨depth, text ++ mark⟩]) = String.ofList
        ((render width init ++ indentation width depth ++ text).toList ++ [c, '\n']) := by
    apply String.toList_inj.1
    simp [hc]
  simp only [List.mem_cons, List.not_mem_nil, or_false] at hmark
  rcases hmark with rfl | rfl
  · rw [hrender ';' rfl]
    exact endLine_concat _ (by decide)
  · rw [hrender '\x7d' rfl]
    exact endLine_concat _ (by decide)

end Printer

/-- A program is printed as its lines. -/
theorem Program.print_eq (u : Program) (width : Nat) : u.print width = render width u.lines := by
  have hrun := run_topLevel none u (p := { width }) rfl {}
  have htext : u.print width = endLine (render width u.lines) := by
    rw [Program.print, Printer.start, hrun]
    simp [append, Program.lines]
  rw [htext]
  cases u with
  | nil => rfl
  | cons s rest => exact endLine_render width (ended_linesAfter none (s :: rest) (by simp))

end TreeWalk
