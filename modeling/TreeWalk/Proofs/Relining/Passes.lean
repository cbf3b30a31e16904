import Mathlib.Data.List.Forall2
import TreeWalk.Proofs.Counting.Effect
import TreeWalk.Proofs.Folding.Listing
import TreeWalk.Proofs.Layout.Lines
import TreeWalk.Proofs.Relining.Faults

/-! Lines show only as lines. A program on other lines is printed and counted as before, and its constant
expressions, faults and functions are listed as before on the moved lines. So for two programs that are the
same once their lines are erased, the passes give the same texts, counts, values and messages. -/

namespace TreeWalk

variable (f : Line → Line)

/-! ### Printing -/

namespace Printer

theorem fit_relined (e : Expr) (least : Nat) (text : String) :
    fit (e.relined f) least text = fit e least text := by
  have hprecedence : precedence (e.relined f) = precedence e := by cases e <;> rfl
  rw [fit, fit, hprecedence]

theorem spellList_relined {es : List Expr} (h : ∀ e ∈ es, spell (e.relined f) = spell e) :
    spellList (Expr.listRelined f es) = spellList es := by
  induction es with
  | nil => rfl
  | cons e es ih =>
    rw [Expr.listRelined, spellList, spellList, h e List.mem_cons_self,
      ih fun e he => h e (List.mem_cons_of_mem _ he)]

theorem spell_relined (e : Expr) : spell (e.relined f) = spell e := by
  induction e using Expr.induct with
  | literal v l | access x l => rfl
  | grouping e l ih | assign x e l ih => rw [Expr.relined, spell, spell, ih]
  | unary op e l ih => rw [Expr.relined, spell, spell, ih, fit_relined]
  | binary a op b l iha ihb | logical a op b l iha ihb =>
    rw [Expr.relined, spell, spell, iha, ihb, fit_relined, fit_relined]
  | call g es l ih => rw [Expr.relined, spell, spell, spellList_relined f ih]

theorem signature_relined (name : String) (type : Ty) (ps : List Parameter) :
    signature name type (ps.map (Parameter.relined f)) = signature name type ps := by
  rw [signature, signature, List.map_map]
  rfl

end Printer

open Printer

namespace Stmt

theorem listLines_relined {ss : List Stmt} (h : ∀ s ∈ ss, ∀ depth, (s.relined f).lines depth = s.lines depth)
    (depth : Nat) : listLines depth (listRelined f ss) = listLines depth ss := by
  induction ss with
  | nil => rfl
  | cons s ss ih =>
    rw [listRelined, listLines, listLines, h s List.mem_cons_self,
      ih fun t ht => h t (List.mem_cons_of_mem _ ht)]

theorem lines_relined (s : Stmt) (depth : Nat) : (s.relined f).lines depth = s.lines depth := by
  induction s using Stmt.scopeInduct generalizing depth with
  | function x t ps body k l ih =>
    rw [relined, lines, lines, listLines_relined f ih, signature_relined]
  | block ss l ih => rw [relined, lines, lines, listLines_relined f ih]
  | expression e l | print e l => rw [relined, lines, lines, spell_relined]
  | branch c s o l ihs iho =>
    rw [relined, lines_branch, lines_branch, branchStatements_relined, listLines_relined f ihs, spell_relined]
    cases o with
    | none => simp [optionRelined, opening, closing]
    | some t =>
      have ht := listLines_relined f (iho t rfl) (depth + 1)
      simp [optionRelined, opening, closing, elseHead, branchStatements_relined, ht]
  | declare x t e l | ret e l =>
    cases e with
    | none => rfl
    | some e => simp [relined, lines, spell_relined]
  | loop c body k l ih => rw [relined, lines, lines, listLines_relined f ih, spell_relined]

end Stmt

namespace Program

theorem linesAfter_relined (afterFunction : Option Bool) (u : Program) :
    linesAfter afterFunction (Stmt.listRelined f u) = linesAfter afterFunction u := by
  induction u generalizing afterFunction with
  | nil => rfl
  | cons s rest ih =>
    have hseparator : separator afterFunction (s.relined f) = separator afterFunction s := by
      cases afterFunction <;> simp [separator]
    rw [Stmt.listRelined, linesAfter, linesAfter, s.lines_relined, ih, hseparator, s.isFunction_relined]

theorem print_relined (u : Program) (width : Nat) : (u.relined f).print width = u.print width := by
  rw [print_eq, print_eq, lines, relined, linesAfter_relined]
  rfl

end Program

/-! ### Counting -/

theorem Expr.nodes_relined (e : Expr) : (e.relined f).nodes = e.nodes := by
  rw [nodes, nodes, kinds_walk_relined]

namespace Stmt

theorem listDepths_relined_of {ss : List Stmt}
    (h : ∀ s ∈ ss, ∀ depth, (s.relined f).depths depth = s.depths depth) (depth : Nat) :
    listDepths depth (listRelined f ss) = listDepths depth ss := by
  induction ss with
  | nil => rfl
  | cons s ss ih =>
    rw [listRelined, listDepths, listDepths, h s List.mem_cons_self,
      ih fun t ht => h t (List.mem_cons_of_mem _ ht)]

theorem depths_relined (s : Stmt) (depth : Nat) : (s.relined f).depths depth = s.depths depth := by
  induction s using Stmt.induct generalizing depth with
  | function x t ps body k l ih | block body l ih | loop c body k l ih =>
    rw [relined, depths, depths, listDepths_relined_of f ih]
  | expression e l | print e l | declare x t e l | ret e l => rfl
  | branch c s o l ihs iho =>
    rw [relined, depths, depths, ihs]
    cases o with
    | none => rfl
    | some t => rw [optionRelined, optionDepths, optionDepths, iho t rfl]

theorem listDepths_relined (ss : List Stmt) (depth : Nat) :
    listDepths depth (listRelined f ss) = listDepths depth ss :=
  listDepths_relined_of f (fun s _ => s.depths_relined f) depth

end Stmt

theorem Program.census_relined (u : Program) : (u.relined f).census = u.census := by
  have hsizes : (Expr.nodes ∘ Expr.relined f) = Expr.nodes := funext (Expr.nodes_relined f)
  rw [census_eq, census_eq, relined, Stmt.kinds_walkList_relined, Stmt.listDepths_relined,
    Stmt.listRootExprs_relined, List.map_map, hsizes]

/-! ### Folding -/

def Folded.relined (a : Folded) : Folded := { a with line := f a.line }

theorem Folder.constant_relined (e : Expr) : constant (e.relined f) = constant e := by
  induction e using Expr.induct with
  | literal v l | access x l | assign x e l | call g es l => rfl
  | grouping e l ih => exact ih
  | unary op e l ih => rw [Expr.relined, constant, constant, ih]
  | binary a op b l iha ihb | logical a op b l iha ihb => rw [Expr.relined, constant, constant, iha, ihb]

theorem Expr.foldedEntry_relined (e : Expr) :
    (e.relined f).foldedEntry = e.foldedEntry.map (Folded.relined f) := by
  rw [foldedEntry, foldedEntry, fold_eq_constant, fold_eq_constant, Folder.constant_relined, text_eq_spell,
    text_eq_spell, spell_relined, line_relined, isLiteral_relined]
  split
  · rfl
  · cases Folder.constant e <;> rfl

theorem Program.fold_relined (u : Program) : (u.relined f).fold = u.fold.map (Folded.relined f) := by
  have hentries : (Expr.foldedEntry ∘ Expr.relined f) = fun e => e.foldedEntry.map (Folded.relined f) :=
    funext (Expr.foldedEntry_relined f)
  rw [fold_eq, fold_eq, relined, Stmt.listRootExprs_relined, List.filterMap_map, List.map_filterMap, hentries]

/-! ### Erasing all lines -/

theorem forall₂_of_map_eq {α β : Type} {g : α → β} {R : α → α → Prop} (hR : ∀ a b, g a = g b → R a b)
    {as bs : List α} (h : as.map g = bs.map g) : List.Forall₂ R as bs := by
  have hsame : List.Forall₂ (· = ·) (as.map g) (bs.map g) := List.forall₂_eq_eq_eq ▸ h
  rw [List.forall₂_map_left_iff, List.forall₂_map_right_iff] at hsame
  exact hsame.imp fun a b => hR a b

/-- Faults that are the same on the moved lines are told in the same words. -/
theorem Fault.messages_eq {a b : Fault} (h : a.relined f = b.relined f) :
    a.diagnostic.message = b.diagnostic.message ∧
      a.diagnostic.note.map Note.message = b.diagnostic.note.map Note.message := by
  have hmessage (c : Fault) : (c.relined f).diagnostic.message = c.diagnostic.message := by cases c <;> rfl
  have hnote (c : Fault) : (c.relined f).diagnostic.note.map Note.message =
      c.diagnostic.note.map Note.message := by cases c <;> rfl
  constructor
  · rw [← hmessage a, h, hmessage b]
  · rw [← hnote a, h, hnote b]

/-- The passes do not see lines: for two programs that differ in lines only, the source texts, the censuses
and the constant expressions with their values are the same, and so are the messages of all diagnostics and
notes and the records of functions, lines apart. -/
theorem Program.passes_ignore_lines (u₁ u₂ : Program) (h : u₁.unlined = u₂.unlined) :
    (∀ width, u₁.print width = u₂.print width) ∧
    u₁.census = u₂.census ∧
    List.Forall₂ (fun a b => a.expression = b.expression ∧ a.value = b.value) u₁.fold u₂.fold ∧
    ∀ limit,
      List.Forall₂ (fun a b => a.message = b.message ∧ a.note.map Note.message = b.note.map Note.message)
        (u₁.check limit).diagnostics (u₂.check limit).diagnostics ∧
      List.Forall₂ (fun a b => a.name = b.name ∧ a.arity = b.arity ∧ a.returnType = b.returnType ∧
        a.errors = b.errors) (u₁.check limit).functions (u₂.check limit).functions := by
  rw [unlined, unlined] at h
  refine ⟨fun width => ?_, ?_, ?_, fun limit => ?_⟩
  · rw [← print_relined (fun _ => 0) u₁, h, print_relined]
  · rw [← census_relined (fun _ => 0) u₁, h, census_relined]
  · have hfold := congrArg Program.fold h
    rw [fold_relined, fold_relined] at hfold
    refine forall₂_of_map_eq (fun a b hab => ?_) hfold
    simp only [Folded.relined, Folded.mk.injEq, true_and] at hab
    exact hab
  · have hcheck := congrArg (Program.check · limit) h
    simp only [check_relined, CheckReport.relined, CheckReport.mk.injEq] at hcheck
    constructor
    · rw [CheckReport.diagnostics, CheckReport.diagnostics, List.forall₂_map_left_iff,
        List.forall₂_map_right_iff]
      exact forall₂_of_map_eq (fun a b => Fault.messages_eq fun _ => 0) hcheck.2
    · refine forall₂_of_map_eq (fun a b hab => ?_) hcheck.1
      simp only [CheckedFunction.relined, CheckedFunction.mk.injEq, true_and] at hab
      exact hab

/-- A function that is declared twice, with too many parameters of one name, and a call between the two. -/
def declaredTwice (first second call : Line) : Program :=
  [.function "f" .integer [⟨"x", .integer, first⟩, ⟨"x", .integer, first⟩]
      [.ret (some (.access "x" (first + 1))) (first + 1)] first first,
    .print (.call "f" [.unary "-" (.literal (.integer 1) call) call] call) call,
    .function "f" .void [] [] second second,
    .loop (.unary "!" (.literal (.boolean true) call) call) [.ret none call] call call]

theorem Program.passes_ignore_lines_declaredTwice :
    let u₁ := declaredTwice 1 9 4
    let u₂ := declaredTwice 7 3 2
    u₁.unlined = u₂.unlined ∧ u₁.print 2 = u₂.print 2 ∧ u₁.census = u₂.census ∧
      u₁.fold.length = 1 ∧
      List.Forall₂ (fun a b => a.expression = b.expression ∧ a.value = b.value) u₁.fold u₂.fold ∧
      (u₁.check 1).diagnostics.length = 5 ∧ (u₁.check 1).diagnostics ≠ (u₂.check 1).diagnostics ∧
      List.Forall₂ (fun a b => a.message = b.message ∧ a.note.map Note.message = b.note.map Note.message)
        (u₁.check 1).diagnostics (u₂.check 1).diagnostics := by
  intro u₁ u₂
  have h : u₁.unlined = u₂.unlined := rfl
  obtain ⟨hprint, hcensus, hfold, hcheck⟩ := passes_ignore_lines u₁ u₂ h
  exact ⟨h, hprint 2, hcensus, rfl, hfold, by decide, by decide, (hcheck 1).1⟩

end TreeWalk
