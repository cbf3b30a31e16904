import TreeWalk.Proofs.Traversal.Journey
import TreeWalk.Walker

/-! Visitors that record and walk. The visitor that only records what it visits, and then ends with the
default walk, records the nodes of a walk. So it meets the same expressions and statements as the queries, in
the same order, and the bodies of functions and loops beside them. -/

namespace TreeWalk

namespace Walker

/-! ### Recording -/

/-- Records nodes after those recorded before. -/
def record (nodes : List Node) : StateM (List Node) Unit := modify (· ++ nodes)

/-- Every visit records its node and then walks. -/
structure Records (v : Walker (StateM (List Node))) : Prop where
  stmt : ∀ s, v.stmt s = do
    record [.stmt s]
    v.walkStmt s
  body : ∀ ss l, v.body ss l = do
    record [.body ss l]
    v.walkBody ss
  expr : ∀ e, v.expr e = do
    record [.expr e]
    v.walkExpr e

theorem record_nil : record [] = pure () := by
  funext seen
  exact congrArg (Prod.mk ()) (List.append_nil seen)

theorem record_bind (ns ms : List Node) :
    (do
      record ns
      record ms) = record (ns ++ ms) := by
  funext seen
  exact congrArg (Prod.mk ()) (List.append_assoc seen ns ms)

theorem forM_record {α : Type} {visit : α → StateM (List Node) Unit} {nodes : α → List Node} {as : List α}
    (h : ∀ a ∈ as, visit a = record (nodes a)) : as.forM visit = record (as.flatMap nodes) := by
  induction as with
  | nil => exact record_nil.symm
  | cons a as ih =>
    rw [List.forM, h a List.mem_cons_self, ih fun b hb => h b (List.mem_cons_of_mem _ hb), record_bind,
      List.flatMap_cons]

end Walker

theorem Expr.walkList_eq_flatMap (es : List Expr) : Expr.walkList es = es.flatMap Expr.walk := by
  induction es with
  | nil => rfl
  | cons e es ih => rw [walkList, ih, List.flatMap_cons]

theorem Stmt.walkList_eq_flatMap (ss : List Stmt) : Stmt.walkList ss = ss.flatMap Stmt.walk := by
  induction ss with
  | nil => rfl
  | cons s ss ih => rw [walkList, ih, List.flatMap_cons]

namespace Walker

/-- The visitor that records a node with all that is below it. -/
def recorder : Walker (StateM (List Node)) where
  stmt s := record s.walk
  body ss l := record (.body ss l :: Stmt.walkList ss)
  expr e := record e.walk

theorem walkExpr_recorder (e : Expr) : recorder.walkExpr e = record e.walk.tail := by
  cases e with
  | literal w l | access x l => exact record_nil.symm
  | grouping e l | unary op e l | assign x e l => rfl
  | binary a op b l | logical a op b l => exact record_bind a.walk b.walk
  | call f es l =>
    have hes : ∀ e ∈ es, recorder.expr e = record e.walk := fun _ _ => rfl
    rw [walkExpr, forM_record hes, ← Expr.walkList_eq_flatMap]
    rfl

theorem walkBody_recorder (ss : List Stmt) : recorder.walkBody ss = record (Stmt.walkList ss) := by
  have hss : ∀ s ∈ ss, recorder.stmt s = record s.walk := fun _ _ => rfl
  rw [walkBody, forM_record hss, ← Stmt.walkList_eq_flatMap]

theorem walkOption_recorder (o : Option Stmt) : recorder.walkOption o = record (Stmt.walkOption o) := by
  cases o with
  | none => exact record_nil.symm
  | some s => rfl

theorem walkOptionExpr_recorder (e : Option Expr) :
    recorder.walkOptionExpr e = record (Expr.walkOption e) := by
  cases e with
  | none => exact record_nil.symm
  | some e => rfl

theorem walkStmt_recorder (s : Stmt) : recorder.walkStmt s = record s.walk.tail := by
  cases s with
  | function x t ps body k l | expression e l | print e l => rfl
  | block ss l => exact walkBody_recorder ss
  | branch c s o l =>
    rw [walkStmt, walkOption_recorder, Stmt.walk, List.tail_cons, List.append_assoc, ← record_bind,
      ← record_bind]
    rfl
  | declare x t e l | ret e l => exact walkOptionExpr_recorder e
  | loop c body k l => exact record_bind c.walk (.body body k :: Stmt.walkList body)

/-- A walk is what recording and walking gives. -/
theorem records_recorder : recorder.Records where
  stmt s := by
    rw [walkStmt_recorder, record_bind]
    cases s <;> rfl
  body ss l := by
    rw [walkBody_recorder, record_bind]
    rfl
  expr e := by
    rw [walkExpr_recorder, record_bind]
    cases e <;> rfl

/-! ### Every recording visitor is the recorder -/

theorem forM_congr {α : Type} {m : Type → Type} [Monad m] {f g : α → m Unit} {as : List α}
    (h : ∀ a ∈ as, f a = g a) : as.forM f = as.forM g := by
  induction as with
  | nil => rfl
  | cons a as ih =>
    rw [List.forM, List.forM, h a List.mem_cons_self, ih fun b hb => h b (List.mem_cons_of_mem _ hb)]

namespace Records

variable {v : Walker (StateM (List Node))}

theorem expr_of_walk (hv : v.Records) {e : Expr} (h : v.walkExpr e = recorder.walkExpr e) :
    v.expr e = recorder.expr e := by
  rw [hv.expr, h, ← records_recorder.expr]

theorem expr_eq (hv : v.Records) (e : Expr) : v.expr e = recorder.expr e := by
  induction e using Expr.induct with
  | literal w l | access x l => exact hv.expr_of_walk rfl
  | grouping e l ih | unary op e l ih | assign x e l ih => exact hv.expr_of_walk ih
  | binary a op b l iha ihb | logical a op b l iha ihb =>
    apply hv.expr_of_walk
    rw [walkExpr, walkExpr, iha, ihb]
  | call f es l ih => exact hv.expr_of_walk (forM_congr ih)

theorem walkOptionExpr_eq (hv : v.Records) (e : Option Expr) :
    v.walkOptionExpr e = recorder.walkOptionExpr e := by
  cases e with
  | none => rfl
  | some e => exact hv.expr_eq e

theorem stmt_of_walk (hv : v.Records) {s : Stmt} (h : v.walkStmt s = recorder.walkStmt s) :
    v.stmt s = recorder.stmt s := by
  rw [hv.stmt, h, ← records_recorder.stmt]

theorem body_of (hv : v.Records) {ss : List Stmt} (h : ∀ s ∈ ss, v.stmt s = recorder.stmt s) (l : Line) :
    v.body ss l = recorder.body ss l := by
  have hwalk : v.walkBody ss = recorder.walkBody ss := forM_congr h
  rw [hv.body, hwalk, ← records_recorder.body]

theorem stmt_eq (hv : v.Records) (s : Stmt) : v.stmt s = recorder.stmt s := by
  induction s using Stmt.induct with
  | function x t ps body k l ih => exact hv.stmt_of_walk (hv.body_of ih k)
  | block ss l ih => exact hv.stmt_of_walk (forM_congr ih)
  | expression e l | print e l => exact hv.stmt_of_walk (hv.expr_eq e)
  | branch c s o l ihs iho =>
    have ho : v.walkOption o = recorder.walkOption o := by
      cases o with
      | none => rfl
      | some t => exact iho t rfl
    apply hv.stmt_of_walk
    rw [walkStmt, walkStmt, hv.expr_eq, ihs, ho]
  | declare x t e l | ret e l => exact hv.stmt_of_walk (hv.walkOptionExpr_eq e)
  | loop c body k l ih =>
    apply hv.stmt_of_walk
    rw [walkStmt, walkStmt, hv.expr_eq, hv.body_of ih]

/-- Visiting statements records the nodes of their walk. -/
theorem walkBody_eq (hv : v.Records) (ss : List Stmt) : v.walkBody ss = record (Stmt.walkList ss) :=
  (forM_congr fun s _ => hv.stmt_eq s).trans (walkBody_recorder ss)

end Records

end Walker

/-! ### Bodies -/

def Stmt.isLoop : Stmt → Bool
  | .loop .. => true
  | _ => false

namespace Node

def isBody : Node → Bool
  | .body _ _ => true
  | _ => false

/-- Whether a node is visited as a block: a block among the statements, or a body. -/
def isBlock : Node → Bool
  | .stmt s => s.isBlock
  | .body _ _ => true
  | .expr _ => false

theorem countP_isBlock (ns : List Node) :
    ns.countP isBlock = (stmts ns).countP Stmt.isBlock + ns.countP isBody := by
  induction ns with
  | nil => rfl
  | cons n ns ih =>
    cases n with
    | stmt s =>
      rw [stmts_stmt_cons]
      cases h : s.isBlock with
      | true =>
        simp only [List.countP_cons, isBlock, isBody, h, ih, if_true, Bool.false_eq_true, if_false]
        omega
      | false => simp [isBlock, isBody, h, ih]
    | body ss l =>
      rw [stmts_body_cons, List.countP_cons_of_pos rfl, List.countP_cons_of_pos rfl, ih, Nat.add_assoc]
    | expr e => simp [isBlock, isBody, ih]

theorem countP_isBody_walkList {es : List Expr} (h : ∀ e ∈ es, e.walk.countP isBody = 0) :
    (Expr.walkList es).countP isBody = 0 := by
  induction es with
  | nil => rfl
  | cons e es ih =>
    rw [Expr.walkList, List.countP_append, h e List.mem_cons_self,
      ih fun e he => h e (List.mem_cons_of_mem _ he)]

@[simp] theorem countP_isBody_expr (e : Expr) : e.walk.countP isBody = 0 := by
  induction e using Expr.induct with
  | literal w l | access x l => rfl
  | grouping e l ih | unary op e l ih | assign x e l ih => simp [Expr.walk, isBody, ih]
  | binary a op b l iha ihb | logical a op b l iha ihb => simp [Expr.walk, isBody, iha, ihb]
  | call f es l ih => simp [Expr.walk, isBody, countP_isBody_walkList ih]

@[simp] theorem countP_isBody_option (e : Option Expr) : (Expr.walkOption e).countP isBody = 0 := by
  cases e with
  | none => rfl
  | some e => exact countP_isBody_expr e

end Node

namespace Stmt

/-- The bodies met in a statement are those of its functions and its loops. -/
def BodiesCounted (s : Stmt) : Prop :=
  s.walk.countP Node.isBody = s.preorder.countP isFunction + s.preorder.countP isLoop

theorem countP_isBody_walkList {ss : List Stmt} (h : ∀ s ∈ ss, BodiesCounted s) :
    (walkList ss).countP Node.isBody =
      (stmtsUnder ss).countP isFunction + (stmtsUnder ss).countP isLoop := by
  induction ss with
  | nil => rfl
  | cons s ss ih =>
    have hs := h s List.mem_cons_self
    have hrest := ih fun t ht => h t (List.mem_cons_of_mem _ ht)
    rw [BodiesCounted] at hs
    rw [walkList, stmtsUnder, List.countP_append, List.countP_append, List.countP_append]
    omega

theorem bodiesCounted (s : Stmt) : BodiesCounted s := by
  induction s using Stmt.induct with
  | function x t ps body k l ih | loop c body k l ih =>
    simp only [BodiesCounted, walk, preorder, List.countP_cons, List.countP_append,
      Node.countP_isBody_expr, countP_isBody_walkList ih]
    simp only [Node.isBody, isFunction, isLoop, if_true, Bool.false_eq_true, if_false]
    omega
  | block ss l ih =>
    simp [BodiesCounted, walk, preorder, Node.isBody, isFunction, isLoop, countP_isBody_walkList ih]
  | expression e l | print e l | declare x t e l | ret e l =>
    simp [BodiesCounted, walk, preorder, Node.isBody, isFunction, isLoop]
  | branch c s o l ihs iho =>
    rw [BodiesCounted] at ihs
    cases o with
    | none =>
      simp [BodiesCounted, walk, walkOption, preorder, optionPreorder, Node.isBody, isFunction, isLoop, ihs]
    | some t =>
      have ht := iho t rfl
      rw [BodiesCounted] at ht
      simp [BodiesCounted, walk, walkOption, preorder, optionPreorder, Node.isBody, isFunction, isLoop, ihs,
        ht]
      omega

end Stmt

/-! ### The walk and the queries -/

/-- The guide that records what it is shown. -/
def Guide.recorder : Guide (List Node) where
  stmt s seen := (.descend, seen ++ [.stmt s])
  expr e seen := (.descend, seen ++ [.expr e])

theorem Guide.foldl_recorder (ns seen : List Node) :
    ns.foldl Guide.recorder.node ⟨seen, false⟩ = ⟨seen ++ ns.filter fun n => !n.isBody, false⟩ := by
  induction ns generalizing seen with
  | nil => exact congrArg (Journey.mk · false) (List.append_nil seen).symm
  | cons n ns ih =>
    cases n with
    | stmt s => exact (ih _).trans (congrArg (Journey.mk · false) (List.append_assoc ..))
    | body ss l => exact ih seen
    | expr e => exact (ih _).trans (congrArg (Journey.mk · false) (List.append_assoc ..))

/-- The default walk and the queries go through the same tree. A visitor that records every node and then
walks records the nodes of a walk. Their expressions and their statements are those that the queries
enumerate, in the same order, also where both are mixed; beside them there are the bodies of functions and
loops, so as many blocks are visited as there are blocks, functions and loops. -/
theorem Walker.records_what_queries_show (v : Walker (StateM (List Node))) (hv : v.Records)
    (ss : List Stmt) :
    let nodes := (StateT.run (v.walkBody ss) []).2
    nodes = Stmt.walkList ss ∧
    Node.exprs nodes = collectExprs some ss ∧
    Node.stmts nodes = collectStmts some ss ∧
    (nodes.filter fun n => !n.isBody) = (Stmt.journeyList Guide.recorder ss { state := [] }).state ∧
    nodes.countP Node.isBlock =
      countStmts Stmt.isBlock ss + countStmts Stmt.isFunction ss + countStmts Stmt.isLoop ss := by
  intro nodes
  have hnodes : nodes = Stmt.walkList ss :=
    congrArg (fun visit => (StateT.run visit []).2) (hv.walkBody_eq ss)
  rw [hnodes]
  refine ⟨rfl, ?_, ?_, ?_, ?_⟩
  · rw [Stmt.exprs_walkList, collectExprs_eq, List.filterMap_some]
  · rw [Stmt.stmts_walkList, collectStmts_eq, List.filterMap_some]
  · rw [Stmt.journeyList_eq, Guide.foldl_recorder, List.nil_append]
  · have hbodies := Stmt.countP_isBody_walkList fun s (_ : s ∈ ss) => s.bodiesCounted
    rw [Node.countP_isBlock, hbodies, Stmt.stmts_walkList, countStmts_eq, countStmts_eq, countStmts_eq]
    omega

theorem Walker.recorder_records_nested_bodies :
    let ss : List Stmt :=
      [.function "f" .void [] [.loop (.access "x" 2) [.block [] 3] 2 2] 1 1, .print (.access "y" 4) 4]
    let nodes := (StateT.run (Walker.recorder.walkBody ss) []).2
    Walker.recorder.Records ∧
    nodes = Stmt.walkList ss ∧
    Node.exprs nodes = collectExprs some ss ∧
    Node.stmts nodes = collectStmts some ss ∧
    (nodes.filter fun n => !n.isBody) = (Stmt.journeyList Guide.recorder ss { state := [] }).state ∧
    nodes.countP Node.isBlock =
      countStmts Stmt.isBlock ss + countStmts Stmt.isFunction ss + countStmts Stmt.isLoop ss :=
  ⟨Walker.records_recorder, Walker.records_what_queries_show _ Walker.records_recorder _⟩

end TreeWalk
