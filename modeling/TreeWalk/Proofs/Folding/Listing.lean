import TreeWalk.Proofs.Folding.Constant

/-! What the folder lists. Visiting a statement appends one entry for each of its roots that is constant
and no literal, in source order, and gives a slot with the number of these entries, so that who takes it
out never goes on with a default. Whether a root is constant, and its value, is what folding the root on its
own says: the visits before it leave nothing behind but entries. -/

namespace TreeWalk

/-- The entry of an expression that stands in a statement. -/
def Expr.foldedEntry (e : Expr) : Option Folded :=
  if e.isLiteral then none else e.fold.map fun value => ⟨e.line, e.text, value⟩

namespace Folder

open Visit

/-- The action appends entries and gives their number. -/
def Lists (x : Visit Folder (Option Value) Nat) (entries : List Folded) : Prop :=
  ∀ f ch, StateT.run x ⟨f, ch⟩ = (entries.length, ⟨⟨f.folded ++ entries⟩, ch⟩)

/-- The action appends entries and gives a slot with their number. -/
def ListsSlot (x : Visit Folder (Option Value) Slot) (entries : List Folded) : Prop :=
  ∀ f ch, StateT.run x ⟨f, ch⟩ = (.holding (.count entries.length), ⟨⟨f.folded ++ entries⟩, ch⟩)

theorem ListsSlot.count {x : Visit Folder (Option Value) Slot} {es : List Folded} (hx : ListsSlot x es) :
    Lists (do return (← x).count) es := by
  intro f ch
  rw [run_bind, hx f ch]
  rfl

theorem Lists.holding {x : Visit Folder (Option Value) Nat} {es : List Folded} (hx : Lists x es) :
    ListsSlot (do return .holding (.count (← x))) es := by
  intro f ch
  rw [run_bind, hx f ch]
  rfl

theorem lists_nothing : Lists (pure 0) [] := by
  intro f ch
  simp

theorem lists_root (e : Expr) : Lists (root e) e.foldedEntry.toList := by
  intro f ch
  rw [root, run_bind, run_expr, Expr.foldedEntry, Expr.fold_eq_constant]
  cases constant e with
  | none => simp
  | some value =>
    cases h : e.isLiteral with
    | true => simp
    | false => rfl

theorem lists_optionalRoot (e : Option Expr) :
    Lists (optionalRoot e) (e.toList.filterMap Expr.foldedEntry) := by
  cases e with
  | none => exact lists_nothing
  | some e =>
    have he := lists_root e
    cases h : e.foldedEntry with
    | none => simpa [optionalRoot, h] using he
    | some entry => simpa [optionalRoot, h] using he

theorem Lists.add {x y : Visit Folder (Option Value) Nat} {es fs : List Folded} (hx : Lists x es)
    (hy : Lists y fs) :
    Lists (do
      let n ← x
      let m ← y
      return n + m) (es ++ fs) := by
  intro f ch
  simp only [run_bind, hx f ch, hy _ ch, run_pure, List.length_append, List.append_assoc]

theorem lists_cons {x : Visit Folder (Option Value) Nat} {c : Expr} {es : List Expr}
    (hx : Lists x (es.filterMap Expr.foldedEntry)) :
    Lists (do
      let n ← root c
      let m ← x
      return n + m) ((c :: es).filterMap Expr.foldedEntry) := by
  have hadd := (lists_root c).add hx
  cases h : c.foldedEntry <;> simpa [h] using hadd

/-- Visiting the statement lists the entries of its roots. -/
abbrev ListsStmt (s : Stmt) : Prop := ListsSlot (accept s) (s.rootExprs.filterMap Expr.foldedEntry)

theorem lists_stmts {ss : List Stmt} (h : ∀ s ∈ ss, ListsStmt s) :
    Lists (stmts ss) ((Stmt.listRootExprs ss).filterMap Expr.foldedEntry) := by
  induction ss with
  | nil =>
    rw [stmts]
    exact lists_nothing
  | cons s rest ih =>
    have hs := h s List.mem_cons_self
    have hrest := ih fun t ht => h t (List.mem_cons_of_mem s ht)
    simpa [stmts, Stmt.listRootExprs] using hs.count.add hrest

theorem lists_elseStmt {o : Option Stmt} (h : ∀ s ∈ o, ListsStmt s) :
    Lists (elseStmt o) ((Stmt.optionRootExprs o).filterMap Expr.foldedEntry) := by
  cases o with
  | none =>
    rw [elseStmt]
    exact lists_nothing
  | some s => simpa [elseStmt, Stmt.optionRootExprs] using (h s rfl).count

theorem listsStmt (s : Stmt) : ListsStmt s := by
  induction s using Stmt.induct with
  | function x t ps body k l ih => exact (lists_stmts ih).holding
  | block ss l ih => exact (lists_stmts ih).holding
  | expression e l => exact (lists_optionalRoot (some e)).holding
  | branch c s o l ihs iho =>
    have hbranches := ihs.count.add (lists_elseStmt iho)
    rw [← List.filterMap_append] at hbranches
    simpa [ListsStmt, accept, Stmt.rootExprs, Nat.add_assoc] using (lists_cons (c := c) hbranches).holding
  | print e l => exact (lists_optionalRoot (some e)).holding
  | declare x t e l => exact (lists_optionalRoot e).holding
  | loop c body k l ih =>
    simpa [ListsStmt, accept, Stmt.rootExprs] using (lists_cons (c := c) (lists_stmts ih)).holding
  | ret e l => exact (lists_optionalRoot e).holding

end Folder

theorem Program.fold_eq (u : Program) : u.fold = (Stmt.listRootExprs u).filterMap Expr.foldedEntry := by
  have hlists := Folder.lists_stmts (fun s (_ : s ∈ u) => Folder.listsStmt s) {} {}
  exact congrArg (·.2.state.folded) hlists

/-- A program is folded to the entries of its roots in source order. The visit of any statement, from any
state of a folder, keeps the entries before it, appends those of the roots of the statement and gives a slot
with their number, which is what is then taken out of it. -/
theorem fold_lists_constants :
    (∀ u : Program, u.fold = (Stmt.listRootExprs u).filterMap Expr.foldedEntry) ∧
    ∀ (s : Stmt) (v : Visitor Folder (Option Value)),
      (StateT.run (Folder.accept s) v).1 =
        .holding (.count (s.rootExprs.filterMap Expr.foldedEntry).length) ∧
      (StateT.run (Folder.stmt s) v).2.state.folded =
        v.state.folded ++ s.rootExprs.filterMap Expr.foldedEntry ∧
      (StateT.run (Folder.stmt s) v).1 = (s.rootExprs.filterMap Expr.foldedEntry).length := by
  refine ⟨Program.fold_eq, fun s v => ⟨?_, ?_⟩⟩
  · rw [Folder.listsStmt s v.state v.channel]
  · rw [Folder.stmt, (Folder.listsStmt s).count v.state v.channel]
    exact ⟨rfl, rfl⟩

end TreeWalk
