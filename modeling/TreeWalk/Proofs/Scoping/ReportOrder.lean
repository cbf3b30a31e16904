import Mathlib.Data.List.Flatten
import TreeWalk.Proofs.Scoping.Segments
import TreeWalk.Proofs.Traversal.Recording

/-! The order of a report. In a program whose lines never decrease from each node to the next one, the
lines of the faults do not decrease either, but for two kinds of pairs. A function declared twice is found
when its list is registered, before all that is found in the statements in front of it. An assignment or
a call is looked up after its value or its arguments were visited, so it comes behind the faults in them.
-/

namespace TreeWalk

open Scoping

/-! ### Source order -/

namespace Node

/-- The line of a node, and those of the parameters of a function. Nothing is reported on the line of a
body, which therefore may be any. -/
def lines : Node → List Line
  | .stmt (.function _ _ ps _ _ l) => l :: ps.map Parameter.line
  | .stmt s => [s.line]
  | .body _ _ => []
  | .expr e => [e.line]

/-- The lines of the nodes never decrease. -/
def SourceOrder (nodes : List Node) : Prop := (nodes.flatMap lines).Pairwise (· ≤ ·)

instance (nodes : List Node) : Decidable (SourceOrder nodes) :=
  inferInstanceAs (Decidable ((nodes.flatMap lines).Pairwise (· ≤ ·)))

theorem SourceOrder.sublist {ns ms : List Node} (h : SourceOrder ms) (hsub : ns.Sublist ms) :
    SourceOrder ns :=
  List.Pairwise.sublist (hsub.flatMap lines) h

end Node

open Node (SourceOrder)

/-- A fault is about a node, where it can be found. -/
inductive Fault.About : Fault → Node → Prop where
  | duplicateFunction {x t ps body k l first} :
      About (.duplicateFunction x l first) (.stmt (.function x t ps body k l))
  | duplicateParameter {x t ps body k l q} (hq : q ∈ ps) :
      About (.duplicateParameter q.name x q.line) (.stmt (.function x t ps body k l))
  | tooManyParameters {x t ps body k l limit} :
      About (.tooManyParameters x ps.length limit l) (.stmt (.function x t ps body k l))
  | returnOutside {e l} : About (.returnOutside l) (.stmt (.ret e l))
  | undefinedVariable {x l} : About (.undefinedVariable x l) (.expr (.access x l))
  | undeclaredAssignment {x e l} : About (.undeclaredAssignment x l) (.expr (.assign x e l))
  | unknownFunction {f es l} : About (.unknownFunction f l) (.expr (.call f es l))
  | wrongArity {f es l expected declared} :
      About (.wrongArity f expected es.length l declared) (.expr (.call f es l))

theorem Fault.About.line_mem {d : Fault} {node : Node} (h : d.About node) : d.line ∈ node.lines := by
  cases h with
  | duplicateParameter hq => exact List.mem_cons_of_mem _ (List.mem_map_of_mem hq)
  | _ => exact List.mem_cons_self

theorem Fault.About.line_expr {d : Fault} {e : Expr} (h : d.About (.expr e)) : d.line = e.line :=
  List.mem_singleton.1 h.line_mem

/-- Of two nodes in source order the first one is reported on a line that is not greater. -/
theorem Node.SourceOrder.line_le {ns ms : List Node} (h : SourceOrder (ns ++ ms)) {n m : Node}
    (hn : n ∈ ns) (hm : m ∈ ms) {d d' : Fault} (hd : d.About n) (hd' : d'.About m) :
    d.line ≤ d'.line := by
  rw [SourceOrder, List.flatMap_append, List.pairwise_append] at h
  exact h.2.2 _ (List.mem_flatMap.2 ⟨n, hn, hd.line_mem⟩) _ (List.mem_flatMap.2 ⟨m, hm, hd'.line_mem⟩)

/-! ### Reports and their nodes -/

namespace Scoping

/-- Every fault is about one of the nodes. -/
def Found (fs : List Fault) (nodes : List Node) : Prop := ∀ d ∈ fs, ∃ node ∈ nodes, d.About node

theorem Found.mono {fs : List Fault} {ns ms : List Node} (h : Found fs ns) (hsub : ns ⊆ ms) :
    Found fs ms := by
  intro d hd
  obtain ⟨node, hnode, habout⟩ := h d hd
  exact ⟨node, hsub hnode, habout⟩

theorem Found.append {fs gs : List Fault} {ns : List Node} (hf : Found fs ns) (hg : Found gs ns) :
    Found (fs ++ gs) ns := by
  intro d hd
  rcases List.mem_append.1 hd with hd | hd
  · exact hf d hd
  · exact hg d hd

/-- A fault `d` may come before a fault `d'` on a smaller line. -/
inductive Overtakes (sites : List StmtSite) (nodes : List Node) (d d' : Fault) : Prop where
  /-- A function that is not the first of its name in its list overtakes what is found in the
  statements before it. -/
  | registered {r s node} (hr : r ∈ sites) (hd : d ∈ r.duplicates) (hs : s ∈ r.place.earlier)
      (hnode : node ∈ s.walk) (habout : d'.About node)
  /-- What is found inside an expression overtakes what is found at the expression itself. -/
  | operand {e node} (he : .expr e ∈ nodes) (hd' : d'.About (.expr e)) (hnode : node ∈ e.walk.tail)
      (habout : d.About node)

/-- The lines of the faults do not decrease, but where one fault overtakes another. -/
def InOrder (sites : List StmtSite) (nodes : List Node) (fs : List Fault) : Prop :=
  fs.Pairwise fun d d' => d.line ≤ d'.line ∨ Overtakes sites nodes d d'

theorem InOrder.mono {sites sites' : List StmtSite} {ns ms : List Node} {fs : List Fault}
    (h : InOrder sites ns fs) (hsites : sites ⊆ sites') (hnodes : ns ⊆ ms) : InOrder sites' ms fs := by
  refine List.Pairwise.imp ?_ h
  rintro d d' (hle | hover)
  · exact .inl hle
  · cases hover with
    | registered hr hd hs hnode habout => exact .inr (.registered (hsites hr) hd hs hnode habout)
    | operand he hd' hnode habout => exact .inr (.operand (hnodes he) hd' hnode habout)

/-- The faults are about the nodes, and they are in order if the nodes are in source order. -/
structure Follows (sites : List StmtSite) (nodes : List Node) (fs : List Fault) : Prop where
  found : Found fs nodes
  inOrder : SourceOrder nodes → InOrder sites nodes fs

namespace Follows

variable {sites sites' : List StmtSite} {ns ms : List Node} {fs gs : List Fault} {d : Fault} {node : Node}

theorem nil : Follows sites ns [] where
  found := by simp [Found]
  inOrder _ := List.Pairwise.nil

theorem single (h : d.About node) : Follows sites [node] [d] where
  found := by simpa [Found] using h
  inOrder _ := List.pairwise_singleton _ _

theorem ite {c : Prop} [Decidable c] (hf : Follows sites ns fs) (hg : Follows sites ns gs) :
    Follows sites ns (if c then fs else gs) := by
  split
  · exact hf
  · exact hg

theorem mono (h : Follows sites ns fs) (hsites : sites ⊆ sites') (hsub : ns.Sublist ms) :
    Follows sites' ms fs where
  found := h.found.mono hsub.subset
  inOrder horder := (h.inOrder (horder.sublist hsub)).mono hsites hsub.subset

theorem cons (h : Follows sites ns fs) (node : Node) : Follows sites (node :: ns) fs :=
  h.mono (List.Subset.refl _) (List.sublist_cons_self node ns)

theorem append (hf : Follows sites ns fs) (hg : Follows sites' ms gs) :
    Follows (sites ++ sites') (ns ++ ms) (fs ++ gs) := by
  have hleft := hf.mono (List.subset_append_left sites sites') (List.sublist_append_left ns ms)
  have hright := hg.mono (List.subset_append_right sites sites') (List.sublist_append_right ns ms)
  refine ⟨hleft.found.append hright.found, fun horder => ?_⟩
  refine List.pairwise_append.2 ⟨hleft.inOrder horder, hright.inOrder horder, fun d hd d' hd' => .inl ?_⟩
  obtain ⟨n, hn, habout⟩ := hf.found d hd
  obtain ⟨m, hm, habout'⟩ := hg.found d' hd'
  exact horder.line_le hn hm habout habout'

/-- What is found at an expression itself comes after what is found inside of it. -/
theorem lookup {e : Expr} (hwalk : e.walk = .expr e :: ns) (hf : Follows [] ns fs)
    (hg : Follows [] [.expr e] gs) : Follows [] e.walk (fs ++ gs) := by
  have hself {d : Fault} (hd : d ∈ gs) : d.About (.expr e) := by simpa using hg.found d hd
  have hmem : .expr e ∈ e.walk := hwalk ▸ List.mem_cons_self
  have hinner : Follows [] e.walk fs := hwalk ▸ hf.cons (.expr e)
  have houter : Follows [] e.walk gs :=
    hg.mono (List.Subset.refl _) (List.singleton_sublist.2 hmem)
  refine ⟨hinner.found.append houter.found, fun horder => ?_⟩
  refine List.pairwise_append.2 ⟨hinner.inOrder horder, houter.inOrder horder, fun d hd d' hd' => ?_⟩
  obtain ⟨node, hnode, habout⟩ := hf.found d hd
  refine .inr (.operand hmem (hself hd') ?_ habout)
  rwa [hwalk, List.tail_cons]

end Follows

/-! ### Expressions -/

theorem follows_use (v : View) (x : String) {d : Fault} {node : Node} (h : d.About node) :
    Follows [] [node] (if v.bound.contains x then [] else [d]) :=
  .ite .nil (.single h)

theorem follows_callFaults (v : View) (f : String) (es : List Expr) (l : Line) :
    Follows [] [.expr (.call f es l)] (v.callFaults f es.length l) := by
  rw [View.callFaults]
  split
  · exact .single .unknownFunction
  · exact .ite (.single .wrongArity) .nil

theorem follows_arguments {v : View} {es : List Expr} (h : ∀ e ∈ es, Follows [] e.walk (e.faults v)) :
    Follows [] (Expr.walkList es) (Expr.listFaults v es) := by
  induction es with
  | nil => exact .nil
  | cons e es ih =>
    exact (h e List.mem_cons_self).append (ih fun e he => h e (List.mem_cons_of_mem _ he))

theorem follows_expr (v : View) (e : Expr) : Follows [] e.walk (e.faults v) := by
  induction e using Expr.induct with
  | literal c l => exact .nil
  | grouping e l ih | unary op e l ih => exact ih.cons _
  | binary a op b l iha ihb | logical a op b l iha ihb => exact (iha.append ihb).cons _
  | access x l => exact follows_use v x .undefinedVariable
  | assign x e l ih => exact .lookup rfl ih (follows_use v x .undeclaredAssignment)
  | call f es l ih => exact .lookup rfl (follows_arguments ih) (follows_callFaults v f es l)

theorem follows_option (v : View) (e : Option Expr) :
    Follows [] (Expr.walkOption e) (Expr.optionFaults v e) := by
  cases e with
  | none => exact .nil
  | some e => exact follows_expr v e

/-! ### Registered functions -/

theorem follows_duplicateFunctions (functions : Scopes Signature) (ss : List Stmt) :
    Follows [] (Stmt.walkList ss) (duplicateFunctions functions ss) := by
  induction ss generalizing functions with
  | nil => exact .nil
  | cons s ss ih =>
    cases s with
    | function x t ps body k l =>
      have hself : Follows [] [.stmt (.function x t ps body k l)]
          ((functions.innermost.lookup x).toList.map (.duplicateFunction x l ·.line)) := by
        cases functions.innermost.lookup x with
        | none => exact .nil
        | some first => exact .single .duplicateFunction
      have hwalk : Follows [] (Stmt.function x t ps body k l).walk _ :=
        hself.mono (List.Subset.refl _) (by simp [Stmt.walk])
      exact hwalk.append (ih _)
    | _ => exact (ih functions).mono (List.Subset.refl _) (List.sublist_append_right _ _)

theorem StmtSite.line_of_mem_duplicates {r : StmtSite} {d : Fault} (h : d ∈ r.duplicates) :
    d.line = r.node.line := by
  obtain ⟨p, s⟩ := r
  cases s with
  | function f t ps body k l =>
    obtain ⟨first, -, rfl⟩ := List.mem_map.1 h
    rfl
  | _ => simp [StmtSite.duplicates] at h

/-- What a function is found to repeat depends on its own list only. -/
theorem StmtSite.duplicates_list (statements : List Stmt) (i : Nat) (p q : Place) (s : Stmt) :
    StmtSite.duplicates ⟨.list statements i :: p, s⟩ = StmtSite.duplicates ⟨.list statements i :: q, s⟩ := by
  cases s <;> rfl

theorem self_mem_stmtSites (p : Place) (s : Stmt) : ⟨p, s⟩ ∈ s.stmtSites p := by
  cases s with
  | branch c s o l => simp [stmtSites_branch]
  | _ => simp [Stmt.stmtSites]

theorem mem_listStmtSites {ss : List Stmt} {j : Nat} {s : Stmt} (hs : ss[j]? = some s) (p : Place)
    (statements : List Stmt) (i : Nat) :
    ⟨.list statements (i + j) :: p, s⟩ ∈ Stmt.listStmtSites p statements i ss := by
  induction ss generalizing i j with
  | nil => simp at hs
  | cons t rest ih =>
    rw [Stmt.listStmtSites, List.mem_append]
    cases j with
    | zero =>
      obtain rfl : t = s := by simpa using hs
      exact .inl (self_mem_stmtSites _ t)
    | succ j =>
      have hrest := ih (by simpa using hs) (i + 1)
      rw [Nat.add_assoc, Nat.add_comm 1 j] at hrest
      exact .inr hrest

/-- Nothing found in a statement or behind it is on a line before the statement. -/
theorem line_le_of_about {s : Stmt} {ns : List Node} (h : SourceOrder (s.walk ++ ns)) {node : Node}
    (hnode : node ∈ s.walk ++ ns) {d : Fault} (hd : d.About node) : s.line ≤ d.line := by
  obtain ⟨rest, hlines⟩ : ∃ rest, (s.walk ++ ns).flatMap Node.lines = s.line :: rest := by
    cases s <;> exact ⟨_, rfl⟩
  have hmem : d.line ∈ (s.walk ++ ns).flatMap Node.lines := List.mem_flatMap.2 ⟨node, hnode, hd.line_mem⟩
  rw [SourceOrder, hlines, List.pairwise_cons] at h
  rw [hlines, List.mem_cons] at hmem
  rcases hmem with heq | hmem
  · exact heq ▸ UInt32.le_refl _
  · exact h.1 _ hmem

/-- A function that is found when its list is registered is before what is found in its statement and in
those behind it, and overtakes the rest. -/
theorem line_le_or_overtakes {ss : List Stmt} (h : SourceOrder (Stmt.walkList ss)) (p : Place)
    {functions : Scopes Signature} (hf : Records functions []) {d d' : Fault}
    (hd : d ∈ duplicateFunctions functions ss) {node : Node} (hnode : node ∈ Stmt.walkList ss)
    (hd' : d'.About node) :
    d.line ≤ d'.line ∨ Overtakes (scopeStmtSites p ss) (Stmt.walkList ss) d d' := by
  have hstart : ss.drop 0 = ss := List.drop_zero
  rw [duplicateFunctions_eq hstart hf] at hd
  obtain ⟨⟨s, j⟩, hmem, hfirst⟩ := List.mem_flatMap.1 hd
  have hd : d ∈ StmtSite.duplicates ⟨.list ss j :: p, s⟩ :=
    StmtSite.duplicates_list ss j [] p s ▸ hfirst
  have hat : ss[j]? = some s := List.mem_zipIdx_iff_getElem?.1 hmem
  have hsplit : ss.take j ++ s :: ss.drop (j + 1) = ss := by
    obtain ⟨hj, rfl⟩ := List.getElem?_eq_some_iff.1 hat
    rw [← List.drop_eq_getElem_cons hj, List.take_append_drop]
  have hwalk : Stmt.walkList ss =
      (ss.take j).flatMap Stmt.walk ++ (s.walk ++ (ss.drop (j + 1)).flatMap Stmt.walk) := by
    rw [Stmt.walkList_eq_flatMap, ← List.flatMap_cons, ← List.flatMap_append, hsplit]
  rw [hwalk] at h
  rw [hwalk, List.mem_append] at hnode
  rcases hnode with hbefore | hbehind
  · obtain ⟨t, ht, hnode⟩ := List.mem_flatMap.1 hbefore
    have hsite := mem_listStmtSites hat p ss 0
    rw [Nat.zero_add] at hsite
    exact .inr (.registered hsite hd ht hnode hd')
  · have hline : d.line = s.line := StmtSite.line_of_mem_duplicates hd
    have hafter := h.sublist (List.sublist_append_right ((ss.take j).flatMap Stmt.walk) _)
    exact .inl (hline ▸ line_le_of_about hafter hbehind hd')

/-! ### Statements -/

/-- Wherever the statement stands, what is found in it follows its nodes. -/
def Traced (s : Stmt) : Prop :=
  ∀ (v : View) (p : Place), Follows (s.stmtSites p) s.walk (s.faults v)

theorem follows_listFaults {ss : List Stmt} (hss : ∀ s ∈ ss, Traced s) (v : View) (p : Place)
    (statements : List Stmt) (i : Nat) :
    Follows (Stmt.listStmtSites p statements i ss) (Stmt.walkList ss) (Stmt.listFaults v ss) := by
  induction ss generalizing v i with
  | nil => exact .nil
  | cons s ss ih =>
    have hs := hss s List.mem_cons_self v (.list statements i :: p)
    exact hs.append (ih (fun t ht => hss t (List.mem_cons_of_mem _ ht)) (v.after s) (i + 1))

/-- What is found when a list is registered, and then what is found in its statements. -/
theorem follows_registered {ss : List Stmt} (hss : ∀ s ∈ ss, Traced s) (v : View) (p : Place)
    {functions : Scopes Signature} (hf : Records functions []) :
    Follows (scopeStmtSites p ss) (Stmt.walkList ss)
      (duplicateFunctions functions ss ++ Stmt.listFaults v ss) := by
  have hduplicates : Follows (scopeStmtSites p ss) _ _ :=
    (follows_duplicateFunctions functions ss).mono (List.nil_subset _) (List.Sublist.refl _)
  have hlist : Follows (scopeStmtSites p ss) _ _ := follows_listFaults hss v p ss 0
  refine ⟨hduplicates.found.append hlist.found, fun h => ?_⟩
  refine List.pairwise_append.2 ⟨hduplicates.inOrder h, hlist.inOrder h, fun d hd d' hd' => ?_⟩
  obtain ⟨node, hnode, habout⟩ := hlist.found d' hd'
  exact line_le_or_overtakes h p hf hd hnode habout

theorem follows_scopeFaults {ss : List Stmt} (hss : ∀ s ∈ ss, Traced s) (v : View) (p : Place) :
    Follows (scopeStmtSites p ss) (Stmt.walkList ss) (scopeFaults v ss) :=
  follows_registered hss (v.enter ss) p (records_push v.functions)

theorem follows_branch {s : Stmt} (hs : ∀ t ∈ s.branchStatements, Traced t) (v : View) (p : Place) :
    Follows (branchStmtSites p s) s.walk (scopeFaults v s.branchStatements) := by
  refine (follows_scopeFaults hs v p).mono (List.subset_append_right _ _) ?_
  cases hb : s.isBlock with
  | true =>
    obtain ⟨ss, k, rfl⟩ := Stmt.isBlock_iff.1 hb
    exact List.sublist_cons_self _ _
  | false => simp [Stmt.branchStatements_lone hb, Stmt.walkList]

theorem follows_otherBranch {o : Option Stmt} (ho : ∀ b ∈ o, ∀ t ∈ b.branchStatements, Traced t)
    (v : View) (p : Place) :
    Follows (o.toList.flatMap (branchStmtSites p)) (Stmt.walkOption o)
      (o.toList.flatMap fun t => scopeFaults v t.branchStatements) := by
  cases o with
  | none => exact .nil
  | some t => simpa [Stmt.walkOption] using follows_branch (ho t rfl) v p

theorem sublist_repeatedParameters (ps : List Parameter) : (repeatedParameters ps).Sublist ps := by
  have hall : (ps.zipIdx.map (·.1)).Sublist ps := by rw [List.zipIdx_map_fst]
  exact (List.filter_sublist.map Prod.fst).trans hall

/-- A repeated parameter is reported on its own line, and the parameters are behind the head. -/
theorem follows_headFaults (v : View) (x : String) (t : Ty) (ps : List Parameter) (body : List Stmt)
    (k l : Line) : Follows [] [.stmt (.function x t ps body k l)] (v.headFaults x ps l) := by
  have hps := sublist_repeatedParameters ps
  rw [headFaults_eq v [] x t ps body k l, StmtSite.visitFaults]
  refine ⟨Found.append (Follows.ite (.single .tooManyParameters) .nil : Follows [] _ _).found ?_, ?_⟩
  · intro d hd
    obtain ⟨q, hq, rfl⟩ := List.mem_map.1 hd
    exact ⟨_, List.mem_cons_self, .duplicateParameter (hps.subset hq)⟩
  · intro h
    have hlines : (l :: ps.map Parameter.line).Pairwise (· ≤ ·) := by
      simpa [SourceOrder, Node.lines] using h
    refine (List.pairwise_map.1 (hlines.sublist ?_)).imp .inl
    rw [List.map_append, List.map_map]
    split
    · exact (hps.map Parameter.line).cons_cons l
    · exact (hps.map Parameter.line).cons l

theorem traced (s : Stmt) : Traced s := by
  induction s using Stmt.scopeInduct with
  | function x t ps body k l ih =>
    intro v p
    have hbody := follows_scopeFaults ih (v.enterFunction ps) (.function ps body :: p)
    exact ((follows_headFaults v x t ps body k l).append (hbody.cons (.body body k))).mono
      (List.subset_cons_self _ _) (List.Sublist.refl _)
  | block ss l ih =>
    intro v p
    exact (follows_scopeFaults ih v p).mono (List.subset_cons_self _ _) (List.sublist_cons_self _ _)
  | expression e l | print e l =>
    intro v p
    exact (follows_expr v e).mono (List.nil_subset _) (List.sublist_cons_self _ _)
  | branch c s o l ihs iho =>
    intro v p
    rw [faults_branch, stmtSites_branch]
    have hall := ((follows_expr v c).append (follows_branch ihs v p)).append (follows_otherBranch iho v p)
    exact hall.mono (List.subset_cons_self _ _) (List.sublist_cons_self _ _)
  | declare x t e l =>
    intro v p
    exact (follows_option v e).mono (List.nil_subset _) (List.sublist_cons_self _ _)
  | loop c body k l ih =>
    intro v p
    have hbody := (follows_scopeFaults ih v p).cons (.body body k)
    exact ((follows_expr v c).append hbody).mono (List.subset_cons_self _ _) (List.sublist_cons_self _ _)
  | ret e l =>
    intro v p
    have hself : Follows [] [.stmt (.ret e l)] (if v.functionDepth = 0 then [.returnOutside l] else []) :=
      .ite (.single .returnOutside) .nil
    exact (hself.append (follows_option v e)).mono (List.nil_subset _) (List.Sublist.refl _)

theorem follows_check (u : Program) (limit : Nat) :
    Follows u.stmtSites (Stmt.walkList u) (u.check limit).faults := by
  rw [Program.check_eq]
  exact follows_registered (fun s _ => traced s) (u.view limit) [] fun _ => rfl

end Scoping

/-- The name in the expression is looked up after the expressions inside of it were visited. -/
def Expr.looksUpLast : Expr → Bool
  | .assign .. | .call .. => true
  | _ => false

namespace Scoping

/-- Where no function is declared twice, only faults on one line overtake each other. -/
theorem line_le_of_overtakes {sites : List StmtSite} {nodes : List Node} {d d' : Fault}
    (hfirst : ∀ r ∈ sites, r.duplicates = [])
    (hline : ∀ e ∈ Node.exprs nodes, e.looksUpLast → ∀ part ∈ Node.exprs e.walk, part.line = e.line)
    (h : Overtakes sites nodes d d') : d.line ≤ d'.line := by
  cases h with
  | registered hr hd _ _ _ => simp [hfirst _ hr] at hd
  | @operand e node he hd' hnode habout =>
    have hlast : e.looksUpLast := by
      cases hd' with
      | undefinedVariable => simp [Expr.walk] at hnode
      | undeclaredAssignment | unknownFunction | wrongArity => rfl
    have hwalk : node ∈ e.walk := List.mem_of_mem_tail hnode
    cases node with
    | stmt s =>
      have hs : s ∈ Node.stmts e.walk := List.mem_filterMap.2 ⟨.stmt s, hwalk, rfl⟩
      simp at hs
    | body ss l => cases habout
    | expr part =>
      have hpart := hline e (List.mem_filterMap.2 ⟨.expr e, he, rfl⟩) hlast part
        (List.mem_filterMap.2 ⟨.expr part, hwalk, rfl⟩)
      rw [habout.line_expr, hd'.line_expr, hpart]
      exact UInt32.le_refl _

end Scoping

/-- Diagnostics follow the source with two exceptions. In a program in source order, a fault that is
reported before another one on a smaller line is a function declared twice that overtakes what is in the
statements before it, or it is found inside an assignment or a call and overtakes that one. So the lines
never decrease where no list declares a function twice and each assignment and each call is on one line. -/
theorem Program.diagnostics_follow_source (u : Program) (limit : Nat)
    (h : SourceOrder (Stmt.walkList u)) :
    (u.check limit).diagnostics.map Diagnostic.line = (u.check limit).faults.map Fault.line ∧
      InOrder u.stmtSites (Stmt.walkList u) (u.check limit).faults ∧
      ((∀ r ∈ u.stmtSites, r.duplicates = []) →
        (∀ e ∈ Node.exprs (Stmt.walkList u), e.looksUpLast →
          ∀ part ∈ Node.exprs e.walk, part.line = e.line) →
        ((u.check limit).diagnostics.map Diagnostic.line).Pairwise (· ≤ ·)) := by
  have hlines : (u.check limit).diagnostics.map Diagnostic.line = (u.check limit).faults.map Fault.line :=
    List.map_map
  have hinOrder := (follows_check u limit).inOrder h
  refine ⟨hlines, hinOrder, fun hfirst hline => ?_⟩
  rw [hlines, List.pairwise_map]
  refine hinOrder.imp ?_
  rintro d d' (hle | hover)
  · exact hle
  · exact line_le_of_overtakes hfirst hline hover

/-- All kinds of faults but a function declared twice, in a program whose sum is on two lines. -/
theorem Program.diagnostics_follow_source_lines :
    let u : Program :=
      [.function "f" .void [⟨"a", .integer, 1⟩, ⟨"a", .integer, 2⟩]
        [.expression (.assign "y" (.access "x" 3) 3) 3] 3 1,
       .print (.binary (.call "f" [.access "z" 4] 4) "+" (.call "g" [] 5) 4) 4,
       .ret none 6]
    SourceOrder (Stmt.walkList u) ∧ (u.check 1).faults.map Fault.line = [1, 2, 3, 3, 4, 4, 5, 6] ∧
      InOrder u.stmtSites (Stmt.walkList u) (u.check 1).faults ∧
      ((u.check 1).diagnostics.map Diagnostic.line).Pairwise (· ≤ ·) := by
  intro u
  have h : SourceOrder (Stmt.walkList u) := by decide
  obtain ⟨-, hinOrder, hlines⟩ := u.diagnostics_follow_source 1 h
  exact ⟨h, by decide, hinOrder, hlines (by decide) (by decide)⟩

/-- The second function of a name on line 4 is reported first, and the variable on line 2 before the
assignment on line 1 that it stands in. -/
theorem Program.diagnostics_against_source :
    let u : Program :=
      [.expression (.assign "y" (.access "x" 2) 1) 1,
       .function "f" .void [] [] 3 3,
       .function "f" .void [] [] 4 4]
    SourceOrder (Stmt.walkList u) ∧ (u.check 255).diagnostics.map Diagnostic.line = [4, 2, 1] ∧
      ¬ ((u.check 255).diagnostics.map Diagnostic.line).Pairwise (· ≤ ·) := by
  decide

end TreeWalk
