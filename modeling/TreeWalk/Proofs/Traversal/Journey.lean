import Mathlib.Data.List.Basic
import TreeWalk.Query
import TreeWalk.Proofs.Traversal.Preorder

/-! What the queries see. A journey shows the nodes of a walk to its guide one after the other, bodies left
out. Once it is stopped it stays as it is, so going on to the end of the walk does no harm, and a journey is
a plain fold over all the nodes of the walk. A guide for expressions then meets exactly the expressions in
source order, and a guide for statements exactly the statements. -/

namespace TreeWalk

namespace Journey

variable {σ : Type}

/-- Shows a node, as `visit` does, with nothing inside it. -/
def meet (j : Journey σ) (visit : σ → Flow × σ) : Journey σ := j.enter visit id

theorem meet_of_stopped {j : Journey σ} (h : j.stopped) (visit : σ → Flow × σ) : j.meet visit = j := by
  rw [meet, enter, if_pos h]

/-- A guide that only says to go on changes nothing. -/
theorem meet_descend (j : Journey σ) : (j.meet fun s => (.descend, s)) = j := by
  obtain ⟨state, stopped⟩ := j
  cases stopped <;> rfl

/-- What leaves a stopped journey as it is may be done after a node as well as inside it. -/
theorem enter_eq {inside : Journey σ → Journey σ} (h : ∀ j, j.stopped → inside j = j)
    (visit : σ → Flow × σ) (j : Journey σ) : j.enter visit inside = inside (j.meet visit) := by
  by_cases hstopped : j.stopped
  · rw [meet_of_stopped hstopped, h j hstopped, enter, if_pos hstopped]
  · rw [meet, enter, enter, if_neg hstopped, if_neg hstopped]
    obtain ⟨flow, s⟩ := visit j.state
    cases flow with
    | stop => exact (h ⟨s, true⟩ rfl).symm
    | descend => rfl

end Journey

open Journey

/-! ### A journey is a fold over a walk -/

section Fold

variable {σ : Type} (guide : Guide σ)

/-- What a journey does at a node. Nothing is done at a body. -/
def Guide.node (j : Journey σ) : Node → Journey σ
  | .stmt t => j.meet (guide.stmt t)
  | .body _ _ => j
  | .expr e => j.meet (guide.expr e)

theorem Guide.foldl_of_stopped {j : Journey σ} (h : j.stopped) (ns : List Node) :
    ns.foldl guide.node j = j := by
  induction ns with
  | nil => rfl
  | cons n ns ih =>
    cases n with
    | stmt t | expr e => rw [List.foldl_cons, node, meet_of_stopped h, ih]
    | body ss l => exact ih

theorem Guide.enter_foldl (visit : σ → Flow × σ) {inside : Journey σ → Journey σ} {ns : List Node}
    (h : ∀ j, inside j = ns.foldl guide.node j) (j : Journey σ) :
    j.enter visit inside = ns.foldl guide.node (j.meet visit) := by
  obtain rfl : inside = ns.foldl guide.node := funext h
  exact enter_eq (fun _ hstopped => guide.foldl_of_stopped hstopped ns) visit j

open Guide

theorem Expr.journeyList_eq {es : List Expr}
    (h : ∀ e ∈ es, ∀ j, e.journey guide j = e.walk.foldl guide.node j) (j : Journey σ) :
    Expr.journeyList guide es j = (Expr.walkList es).foldl guide.node j := by
  induction es generalizing j with
  | nil => rfl
  | cons e es ih =>
    rw [journeyList, walkList, List.foldl_append, h e List.mem_cons_self,
      ih fun e he => h e (List.mem_cons_of_mem _ he)]

theorem Expr.journey_eq (e : Expr) (j : Journey σ) : e.journey guide j = e.walk.foldl guide.node j := by
  induction e using Expr.induct generalizing j with
  | literal v l | access x l => rfl
  | grouping e l ih | unary op e l ih | assign x e l ih => exact guide.enter_foldl _ ih j
  | binary a op b l iha ihb | logical a op b l iha ihb =>
    refine guide.enter_foldl _ (fun j => ?_) j
    rw [List.foldl_append, ihb, iha]
  | call f es l ih => exact guide.enter_foldl _ (journeyList_eq guide ih) j

theorem Expr.journeyOption_eq (e : Option Expr) (j : Journey σ) :
    Expr.journeyOption guide e j = (Expr.walkOption e).foldl guide.node j := by
  cases e with
  | none => rfl
  | some e => exact e.journey_eq guide j

theorem Stmt.journeyList_of {ss : List Stmt}
    (h : ∀ t ∈ ss, ∀ j, t.journey guide j = t.walk.foldl guide.node j) (j : Journey σ) :
    Stmt.journeyList guide ss j = (Stmt.walkList ss).foldl guide.node j := by
  induction ss generalizing j with
  | nil => rfl
  | cons t ss ih =>
    rw [journeyList, walkList, List.foldl_append, h t List.mem_cons_self,
      ih fun t ht => h t (List.mem_cons_of_mem _ ht)]

theorem Stmt.journeyOption_of {o : Option Stmt}
    (h : ∀ t ∈ o, ∀ j, t.journey guide j = t.walk.foldl guide.node j) (j : Journey σ) :
    Stmt.journeyOption guide o j = (Stmt.walkOption o).foldl guide.node j := by
  cases o with
  | none => rfl
  | some t => exact h t rfl j

theorem Stmt.journey_eq (t : Stmt) (j : Journey σ) : t.journey guide j = t.walk.foldl guide.node j := by
  induction t using Stmt.induct generalizing j with
  | function x t ps body k l ih | block ss l ih => exact guide.enter_foldl _ (journeyList_of guide ih) j
  | expression e l | print e l => exact guide.enter_foldl _ (e.journey_eq guide) j
  | branch c t o l iht iho =>
    refine guide.enter_foldl _ (fun j => ?_) j
    rw [List.foldl_append, List.foldl_append, journeyOption_of guide iho, iht, c.journey_eq guide]
  | declare x t e l | ret e l => exact guide.enter_foldl _ (Expr.journeyOption_eq guide e) j
  | loop c body k l ih =>
    refine guide.enter_foldl _ (fun j => ?_) j
    rw [List.foldl_append, journeyList_of guide ih, c.journey_eq guide]
    rfl

/-- A journey is a fold over the nodes of a walk. -/
theorem Stmt.journeyList_eq (ss : List Stmt) (j : Journey σ) :
    Stmt.journeyList guide ss j = (Stmt.walkList ss).foldl guide.node j :=
  journeyList_of guide (fun t _ => t.journey_eq guide) j

end Fold

/-! ### Guides for nodes of one sort -/

section Guides

variable {σ : Type}

theorem Guide.foldl_exprs (f : Expr → σ → Flow × σ) (ns : List Node) (j : Journey σ) :
    ns.foldl (Guide.node { expr := f }) j = (Node.exprs ns).foldl (fun j e => j.meet (f e)) j := by
  induction ns generalizing j with
  | nil => rfl
  | cons n ns ih =>
    cases n with
    | stmt t => rw [List.foldl_cons, node, meet_descend, ih, Node.exprs_stmt_cons]
    | body ss l => exact ih j
    | expr e => rw [List.foldl_cons, Node.exprs_expr_cons, List.foldl_cons, node, ih]

theorem Guide.foldl_stmts (f : Stmt → σ → Flow × σ) (ns : List Node) (j : Journey σ) :
    ns.foldl (Guide.node { stmt := f }) j = (Node.stmts ns).foldl (fun j t => j.meet (f t)) j := by
  induction ns generalizing j with
  | nil => rfl
  | cons n ns ih =>
    cases n with
    | stmt t => rw [List.foldl_cons, Node.stmts_stmt_cons, List.foldl_cons, node, ih]
    | body ss l => exact ih j
    | expr e => rw [List.foldl_cons, node, meet_descend, ih, Node.stmts_expr_cons]

/-- A guide for expressions meets the expressions in source order. -/
theorem journeyList_exprs (f : Expr → σ → Flow × σ) (ss : List Stmt) (j : Journey σ) :
    Stmt.journeyList { expr := f } ss j = (Stmt.exprsUnder ss).foldl (fun j e => j.meet (f e)) j := by
  rw [Stmt.journeyList_eq, Guide.foldl_exprs, Stmt.exprs_walkList]

/-- A guide for statements meets the statements in source order. -/
theorem journeyList_stmts (f : Stmt → σ → Flow × σ) (ss : List Stmt) (j : Journey σ) :
    Stmt.journeyList { stmt := f } ss j = (Stmt.stmtsUnder ss).foldl (fun j t => j.meet (f t)) j := by
  rw [Stmt.journeyList_eq, Guide.foldl_stmts, Stmt.stmts_walkList]

/-- A journey that nothing stops is a fold of the state. -/
theorem foldl_meet_descend {α : Type} (step : α → σ → σ) (as : List α) (s : σ) :
    as.foldl (fun j a => Journey.meet j fun s => (.descend, step a s)) ⟨s, false⟩ =
      ⟨as.foldl (fun s a => step a s) s, false⟩ := by
  induction as generalizing s with
  | nil => rfl
  | cons a as ih => exact ih (step a s)

theorem foldExprs_eq (step : Expr → σ → σ) (ss : List Stmt) (s : σ) :
    foldExprs step ss s = (Stmt.exprsUnder ss).foldl (fun s e => step e s) s := by
  rw [foldExprs, journeyList_exprs, foldl_meet_descend]

theorem foldStmts_eq (step : Stmt → σ → σ) (ss : List Stmt) (s : σ) :
    foldStmts step ss s = (Stmt.stmtsUnder ss).foldl (fun s t => step t s) s := by
  rw [foldStmts, journeyList_stmts, foldl_meet_descend]

end Guides

/-! ### Queries -/

section Folds

variable {α β : Type}

theorem foldl_count (p : α → Bool) (as : List α) (n : Nat) :
    as.foldl (fun n a => if p a then n + 1 else n) n = n + as.countP p := by
  induction as generalizing n with
  | nil => rfl
  | cons a as ih =>
    rw [List.foldl_cons, ih, List.countP_cons]
    by_cases h : p a
    · rw [if_pos h, if_pos h]
      omega
    · rw [if_neg h, if_neg h]
      omega

theorem foldl_collect (f : α → Option β) (as : List α) (acc : List β) :
    as.foldl (fun acc a => (f a).toList ++ acc) acc = (as.filterMap f).reverse ++ acc := by
  induction as generalizing acc with
  | nil => rfl
  | cons a as ih =>
    rw [List.foldl_cons, ih]
    cases h : f a <;> simp [h]

end Folds

/-- A search tests the expressions up to the first match, which stops it. -/
theorem foldl_search (p : Expr → Bool) (es seen : List Expr) :
    es.foldl (fun j e => Journey.meet j (Search.test p e)) ⟨⟨false, seen⟩, false⟩ =
      ⟨⟨es.any p, (es.take (es.findIdx p + 1)).reverse ++ seen⟩, es.any p⟩ := by
  induction es generalizing seen with
  | nil => rfl
  | cons e es ih =>
    by_cases h : p e
    · have hmeet : (⟨⟨false, seen⟩, false⟩ : Journey Search).meet (Search.test p e) =
          ⟨⟨true, e :: seen⟩, true⟩ := by simp [meet, enter, Search.test, h]
      have hrest : es.foldl (fun j e => Journey.meet j (Search.test p e)) ⟨⟨true, e :: seen⟩, true⟩ =
          ⟨⟨true, e :: seen⟩, true⟩ :=
        List.foldl_fixed' (fun e => meet_of_stopped rfl (Search.test p e)) es
      rw [List.foldl_cons, hmeet, hrest]
      simp [h, List.findIdx_cons]
    · have hmeet : (⟨⟨false, seen⟩, false⟩ : Journey Search).meet (Search.test p e) =
          ⟨⟨false, e :: seen⟩, false⟩ := by simp [meet, enter, Search.test, h]
      rw [List.foldl_cons, hmeet, ih]
      simp [h, List.findIdx_cons]

theorem collectExprs_eq {α : Type} (f : Expr → Option α) (ss : List Stmt) :
    collectExprs f ss = (Stmt.exprsUnder ss).filterMap f := by
  rw [collectExprs, foldExprs_eq, foldl_collect, List.append_nil, List.reverse_reverse]

theorem collectStmts_eq {α : Type} (f : Stmt → Option α) (ss : List Stmt) :
    collectStmts f ss = (Stmt.stmtsUnder ss).filterMap f := by
  rw [collectStmts, foldStmts_eq, foldl_collect, List.append_nil, List.reverse_reverse]

theorem countExprs_eq (p : Expr → Bool) (ss : List Stmt) :
    countExprs p ss = (Stmt.exprsUnder ss).countP p := by
  rw [countExprs, foldExprs_eq, foldl_count, Nat.zero_add]

theorem countStmts_eq (p : Stmt → Bool) (ss : List Stmt) :
    countStmts p ss = (Stmt.stmtsUnder ss).countP p := by
  rw [countStmts, foldStmts_eq, foldl_count, Nat.zero_add]

/-- A search finds a match if there is one, and tests the expressions up to the first match. -/
theorem searchExprs_eq (p : Expr → Bool) (ss : List Stmt) :
    searchExprs p ss = ⟨(Stmt.exprsUnder ss).any p,
      (Stmt.exprsUnder ss).take ((Stmt.exprsUnder ss).findIdx p + 1)⟩ := by
  have hjourney := journeyList_exprs (Search.test p) ss ⟨⟨false, []⟩, false⟩
  rw [foldl_search, List.append_nil] at hjourney
  rw [searchExprs, hjourney, List.reverse_reverse]

/-- The queries see every node exactly once, in source order. A search tests the expressions up to its
first match, or all if nothing matches. -/
theorem queries_follow_source_order {α β : Type} (f : Expr → Option α) (g : Stmt → Option β)
    (p : Expr → Bool) (q : Stmt → Bool) (ss : List Stmt) :
    collectExprs f ss = (Stmt.exprsUnder ss).filterMap f ∧
    collectStmts g ss = (Stmt.stmtsUnder ss).filterMap g ∧
    countExprs p ss = (Stmt.exprsUnder ss).countP p ∧
    countStmts q ss = (Stmt.stmtsUnder ss).countP q ∧
    (containsExpr p ss ↔ ∃ e ∈ Stmt.exprsUnder ss, p e) ∧
    (searchExprs p ss).examined =
      (Stmt.exprsUnder ss).take ((Stmt.exprsUnder ss).findIdx p + 1) := by
  refine ⟨collectExprs_eq f ss, collectStmts_eq g ss, countExprs_eq p ss, countStmts_eq q ss, ?_, ?_⟩
  · rw [containsExpr, searchExprs_eq, List.any_eq_true]
  · rw [searchExprs_eq]

end TreeWalk
