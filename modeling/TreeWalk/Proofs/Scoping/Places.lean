import Mathlib.Data.List.Perm.Basic
import TreeWalk.Checker
import TreeWalk.Proofs.Tree.Nodes

/-! Lexical scoping by position. A place is the list of what stands around it, innermost first: lists of
statements, each with the index of the statement that the place is in, and functions with their
parameters. What can be seen from a place is read off that list: a variable that a statement before the
place declares, a parameter of a function around it, and a function anywhere in a list around it. The
sites of a program are all its expressions with their places, every expression after those in it. -/

namespace TreeWalk

namespace Scoping

/-! ### Places -/

/-- What stands around a place. -/
inductive Layer where
  /-- A list of statements, and the index in it of the statement that the place is in. -/
  | list (statements : List Stmt) (index : Nat)
  /-- A function with its parameters, the place being in its body. -/
  | function (parameters : List Parameter) (body : List Stmt)

/-- What stands around a place, from the innermost to the outermost. -/
abbrev Place := List Layer

end Scoping

open Scoping

def Stmt.declares (x : String) : Stmt → Bool
  | .declare y _ _ _ => y == x
  | _ => false

/-- The signature of a statement that declares a function `f`. -/
def Stmt.signature? (f : String) : Stmt → Option Signature
  | .function name _ parameters _ _ line => if name = f then some ⟨parameters.length, line⟩ else none
  | _ => none

namespace Scoping

/-- Whether a layer makes a variable visible: a list by a statement before the place, a function by a
parameter. -/
def Layer.Binds : Layer → String → Prop
  | .list statements index, x => ∃ s ∈ statements.take index, s.declares x
  | .function parameters _, x => ∃ q ∈ parameters, q.name = x

instance (layer : Layer) (x : String) : Decidable (layer.Binds x) :=
  match layer with
  | .list statements index => inferInstanceAs (Decidable (∃ s ∈ statements.take index, s.declares x))
  | .function parameters _ => inferInstanceAs (Decidable (∃ q ∈ parameters, q.name = x))

/-- The first function `f` in the list of statements of a layer, before or after the place. -/
def Layer.function? : Layer → String → Option Signature
  | .list statements _, f => statements.findSome? (Stmt.signature? f)
  | .function _ _, _ => none

namespace Place

/-- Whether a variable can be seen from a place. -/
def Sees (p : Place) (x : String) : Prop := ∃ layer ∈ p, layer.Binds x

instance (p : Place) (x : String) : Decidable (p.Sees x) :=
  inferInstanceAs (Decidable (∃ layer ∈ p, layer.Binds x))

/-- The function `f` that can be seen from a place: that of the innermost list with one. -/
def function? (p : Place) (f : String) : Option Signature := p.findSome? (·.function? f)

end Place

/-- An expression of a program and its place. -/
structure Site where
  place : Place
  node : Expr

namespace Site

def isVariable : Site → Bool
  | ⟨_, .access _ _⟩ | ⟨_, .assign _ _ _⟩ => true
  | _ => false

def isCall : Site → Bool
  | ⟨_, .call _ _ _⟩ => true
  | _ => false

/-- What lexical scoping says against the name that an expression uses. -/
def report : Site → Option Diagnostic
  | ⟨p, .access x l⟩ =>
    if p.Sees x then none else some ⟨"undefined variable '" ++ x ++ "'", l, none⟩
  | ⟨p, .assign x _ l⟩ =>
    if p.Sees x then none else some ⟨"assignment to undeclared variable '" ++ x ++ "'", l, none⟩
  | ⟨p, .call f es l⟩ =>
    match p.function? f with
    | none => some ⟨"call to unknown function '" ++ f ++ "'", l, none⟩
    | some g =>
      if g.arity = es.length then none
      else some ⟨"function '" ++ f ++ "' expects " ++ toString g.arity ++ " argument(s), got " ++
        toString es.length, l, some ⟨"'" ++ f ++ "' declared here", g.line⟩⟩
  | _ => none

end Site

end Scoping

/-! ### Sites -/

mutual

/-- The expressions in an expression, each after those in it. -/
def Expr.postorder : Expr → List Expr
  | .literal v l => [.literal v l]
  | .grouping e l => e.postorder ++ [.grouping e l]
  | .unary op e l => e.postorder ++ [.unary op e l]
  | .binary a op b l => a.postorder ++ b.postorder ++ [.binary a op b l]
  | .logical a op b l => a.postorder ++ b.postorder ++ [.logical a op b l]
  | .access x l => [.access x l]
  | .assign x e l => e.postorder ++ [.assign x e l]
  | .call f es l => Expr.postorderList es ++ [.call f es l]

def Expr.postorderList : List Expr → List Expr
  | [] => []
  | e :: es => e.postorder ++ Expr.postorderList es

end

mutual

/-- The outermost expressions in a statement at a place, with their own places. -/
def Stmt.roots (p : Place) : Stmt → List Site
  | .function _ _ ps body _ _ => Stmt.listRoots (.function ps body :: p) body 0 body
  | .block ss _ => Stmt.listRoots p ss 0 ss
  | .expression e _ | .print e _ => [⟨p, e⟩]
  | .branch c s o _ =>
    ⟨p, c⟩ ::
      ((match s with
        | .block ss _ => Stmt.listRoots p ss 0 ss
        | other => other.roots (.list [other] 0 :: p)) ++
      (match o with
        | none => []
        | some (.block ss _) => Stmt.listRoots p ss 0 ss
        | some other => other.roots (.list [other] 0 :: p)))
  | .declare _ _ e _ | .ret e _ => e.toList.map (Site.mk p)
  | .loop c body _ _ => ⟨p, c⟩ :: Stmt.listRoots p body 0 body

/-- The outermost expressions in the statements of a list from an index on. -/
def Stmt.listRoots (p : Place) (statements : List Stmt) (index : Nat) : List Stmt → List Site
  | [] => []
  | s :: rest => s.roots (.list statements index :: p) ++ Stmt.listRoots p statements (index + 1) rest

end

namespace Scoping

/-- The site of an expression and those of the expressions in it. -/
def Site.inner (site : Site) : List Site := site.node.postorder.map (Site.mk site.place)

/-- The outermost expressions in a list of statements. -/
def scopeRoots (p : Place) (statements : List Stmt) : List Site :=
  Stmt.listRoots p statements 0 statements

theorem roots_branch (p : Place) (c : Expr) (s : Stmt) (o : Option Stmt) (l : Line) :
    (Stmt.branch c s o l).roots p = ⟨p, c⟩ :: (scopeRoots p s.branchStatements ++
      o.toList.flatMap fun t => scopeRoots p t.branchStatements) := by
  have hlone (s : Stmt) : scopeRoots p [s] = s.roots (.list [s] 0 :: p) := by
    simp [scopeRoots, Stmt.listRoots]
  rw [Stmt.roots.eq_def]
  dsimp only
  congr 2
  · cases s with
    | block ss k => rfl
    | _ => exact (hlone _).symm
  · cases o with
    | none => rfl
    | some t =>
      rw [Option.toList_some, List.flatMap_singleton]
      cases t with
      | block ss k => rfl
      | _ => exact (hlone _).symm

end Scoping

/-- All expressions of a program, with their places. -/
def Program.sites (u : Program) : List Site := (scopeRoots [] u).flatMap Site.inner

/-! ### The sites are the expressions of the program -/

theorem Expr.postorderList_perm {es : List Expr} (h : ∀ e ∈ es, e.postorder.Perm (Node.exprs e.walk)) :
    (Expr.postorderList es).Perm (Node.exprs (Expr.walkList es)) := by
  induction es with
  | nil => exact .nil
  | cons e rest ih =>
    rw [postorderList, walkList, Node.exprs_append]
    exact (h e List.mem_cons_self).append (ih fun e he => h e (List.mem_cons_of_mem _ he))

theorem Expr.postorder_perm (e : Expr) : e.postorder.Perm (Node.exprs e.walk) := by
  induction e using Expr.induct with
  | literal v l | access x l => exact .rfl
  | grouping e l ih | unary op e l ih | assign x e l ih =>
    rw [postorder, walk, Node.exprs_expr_cons]
    exact (List.perm_append_singleton _ _).trans (ih.cons _)
  | binary a op b l iha ihb | logical a op b l iha ihb =>
    rw [postorder, walk, Node.exprs_expr_cons, Node.exprs_append]
    exact (List.perm_append_singleton _ _).trans ((iha.append ihb).cons _)
  | call f es l ih =>
    rw [postorder, walk, Node.exprs_expr_cons]
    exact (List.perm_append_singleton _ _).trans ((postorderList_perm ih).cons _)

namespace Scoping

/-- The expressions in the outermost expressions of sites, in source order. -/
def exprsOf (sites : List Site) : List Expr := sites.flatMap fun r => Node.exprs r.node.walk

@[simp] theorem exprsOf_append (rs qs : List Site) : exprsOf (rs ++ qs) = exprsOf rs ++ exprsOf qs :=
  List.flatMap_append

@[simp] theorem exprsOf_nil : exprsOf [] = [] := rfl

@[simp] theorem exprsOf_cons (r : Site) (rs : List Site) :
    exprsOf (r :: rs) = Node.exprs r.node.walk ++ exprsOf rs :=
  List.flatMap_cons

/-- The sites in the outermost expressions are their expressions, in another order. -/
theorem nodes_inner_perm (rs : List Site) : ((rs.flatMap Site.inner).map Site.node).Perm (exprsOf rs) := by
  have hmap : (rs.flatMap Site.inner).map Site.node = rs.flatMap fun r => r.node.postorder := by
    simp [List.map_flatMap, Site.inner, Function.comp_def]
  rw [hmap]
  exact List.Perm.flatMap_left _ fun r _ => r.node.postorder_perm

@[simp] theorem exprsOf_option (p : Place) (e : Option Expr) :
    exprsOf (e.toList.map (Site.mk p)) = Node.exprs (Expr.walkOption e) := by
  cases e with
  | none => rfl
  | some e => simp [Expr.walkOption]

theorem exprsOf_listRoots {ss : List Stmt} (h : ∀ s ∈ ss, ∀ p, exprsOf (s.roots p) = Node.exprs s.walk)
    (p : Place) (statements : List Stmt) (i : Nat) :
    exprsOf (Stmt.listRoots p statements i ss) = Node.exprs (Stmt.walkList ss) := by
  induction ss generalizing i with
  | nil => rfl
  | cons s rest ih =>
    rw [Stmt.listRoots, exprsOf_append, h s List.mem_cons_self,
      ih fun t ht => h t (List.mem_cons_of_mem _ ht), Stmt.walkList, Node.exprs_append]

theorem exprs_walk_branchStatements (s : Stmt) :
    Node.exprs (Stmt.walkList s.branchStatements) = Node.exprs s.walk := by
  cases s with
  | block ss l => rfl
  | _ => simp [Stmt.branchStatements, Stmt.walkList]

theorem exprsOf_roots (s : Stmt) (p : Place) : exprsOf (s.roots p) = Node.exprs s.walk := by
  induction s using Stmt.scopeInduct generalizing p with
  | function x t ps body k l ih | block ss l ih =>
    simp [Stmt.roots, Stmt.walk, exprsOf_listRoots ih]
  | expression e l | print e l | declare x t e l | ret e l => simp [Stmt.roots, Stmt.walk]
  | branch c s o l ihs iho =>
    have hs : exprsOf (scopeRoots p s.branchStatements) = Node.exprs s.walk :=
      (exprsOf_listRoots ihs p _ 0).trans (exprs_walk_branchStatements s)
    cases o with
    | none => simp [roots_branch, Stmt.walk, Stmt.walkOption, hs]
    | some t =>
      have ht : exprsOf (scopeRoots p t.branchStatements) = Node.exprs t.walk :=
        (exprsOf_listRoots (iho t rfl) p _ 0).trans (exprs_walk_branchStatements t)
      simp [roots_branch, Stmt.walk, Stmt.walkOption, hs, ht]
  | loop c body k l ih => simp [Stmt.roots, Stmt.walk, exprsOf_listRoots ih]

/-- An expression is in the statement of a list that a layer points to, or in the body of a function. -/
def Layer.Holds : Layer → Expr → Prop
  | .list statements index, e => ∃ s, statements[index]? = some s ∧ e ∈ Node.exprs s.walk
  | .function _ body, e => e ∈ Node.exprs (Stmt.walkList body)

/-- What a site adds to a place are layers that hold its expressions. -/
def Nests (p : Place) (r : Site) : Prop :=
  ∀ e ∈ Node.exprs r.node.walk, ∀ layer ∈ r.place, layer ∈ p ∨ layer.Holds e

/-- The sites in an outermost expression have its layers around them. -/
theorem Nests.inner {p : Place} {r site : Site} (h : Nests p r) (hsite : site ∈ r.inner) :
    site.node ∈ Node.exprs r.node.walk ∧ ∀ layer ∈ site.place, layer ∈ p ∨ layer.Holds site.node := by
  obtain ⟨e, he, rfl⟩ := List.mem_map.1 hsite
  have hmem : e ∈ Node.exprs r.node.walk := r.node.postorder_perm.mem_iff.1 he
  exact ⟨hmem, h e hmem⟩

theorem nests_self (p : Place) (e : Expr) : Nests p ⟨p, e⟩ := fun _ _ _ hlayer => .inl hlayer

/-- A list from a position on says what is at the position and what comes after it. -/
theorem getElem?_and_drop_of_drop_eq_cons {α : Type} {xs rest : List α} {i : Nat} {x : α}
    (h : xs.drop i = x :: rest) : xs[i]? = some x ∧ xs.drop (i + 1) = rest := by
  constructor
  · rw [← List.head?_drop, h, List.head?_cons]
  · rw [← List.tail_drop, h, List.tail_cons]

theorem nests_listRoots {ss : List Stmt} (h : ∀ s ∈ ss, ∀ p, ∀ r ∈ s.roots p, Nests p r) (p : Place)
    {statements : List Stmt} {i : Nat} (hi : statements.drop i = ss) :
    ∀ r ∈ Stmt.listRoots p statements i ss, Nests p r := by
  induction ss generalizing i with
  | nil => simp [Stmt.listRoots]
  | cons s rest ih =>
    intro r hr
    obtain ⟨hat, hrest⟩ := getElem?_and_drop_of_drop_eq_cons hi
    rw [Stmt.listRoots, List.mem_append] at hr
    rcases hr with hr | hr
    -- The first statement is the one that the new layer points to.
    · intro e he layer hlayer
      have hs : e ∈ Node.exprs s.walk := by
        rw [← exprsOf_roots s (.list statements i :: p)]
        exact List.mem_flatMap.2 ⟨r, hr, he⟩
      rcases h s List.mem_cons_self _ r hr e he layer hlayer with hin | hholds
      · rcases List.mem_cons.1 hin with rfl | hp
        · exact .inr ⟨s, hat, hs⟩
        · exact .inl hp
      · exact .inr hholds
    · exact ih (fun t ht => h t (List.mem_cons_of_mem _ ht)) hrest r hr

theorem nests_roots (s : Stmt) (p : Place) : ∀ r ∈ s.roots p, Nests p r := by
  induction s using Stmt.scopeInduct generalizing p with
  | function x t ps body k l ih =>
    intro r hr e he layer hlayer
    rw [Stmt.roots] at hr
    have hbody : e ∈ Node.exprs (Stmt.walkList body) := by
      rw [← exprsOf_listRoots (fun s _ => exprsOf_roots s) (.function ps body :: p) body 0]
      exact List.mem_flatMap.2 ⟨r, hr, he⟩
    rcases nests_listRoots ih _ rfl r hr e he layer hlayer with hin | hholds
    · rcases List.mem_cons.1 hin with rfl | hp
      · exact .inr hbody
      · exact .inl hp
    · exact .inr hholds
  | block ss l ih => exact nests_listRoots ih p rfl
  | expression e l | print e l =>
    intro r hr
    rw [Stmt.roots, List.mem_singleton] at hr
    exact hr ▸ nests_self p e
  | branch c s o l ihs iho =>
    intro r hr
    rw [roots_branch, List.mem_cons, List.mem_append, List.mem_flatMap] at hr
    rcases hr with rfl | hr | ⟨t, ht, hr⟩
    · exact nests_self p c
    · exact nests_listRoots ihs p rfl r hr
    · exact nests_listRoots (iho t (Option.mem_toList.1 ht)) p rfl r hr
  | declare x t e l | ret e l =>
    intro r hr
    rw [Stmt.roots, List.mem_map] at hr
    obtain ⟨e, -, rfl⟩ := hr
    exact nests_self p e
  | loop c body k l ih =>
    intro r hr
    rw [Stmt.roots, List.mem_cons] at hr
    rcases hr with rfl | hr
    · exact nests_self p c
    · exact nests_listRoots ih p rfl r hr

/-- The sites are the expressions of a program, each once, and all that is around a site holds it. -/
structure IsSurvey (u : Program) (sites : List Site) : Prop where
  nodes : (sites.map Site.node).Perm (Node.exprs (Stmt.walkList u))
  holds : ∀ site ∈ sites, ∀ layer ∈ site.place, layer.Holds site.node

end Scoping

theorem Program.isSurvey_sites (u : Program) : IsSurvey u u.sites where
  nodes := by
    rw [← exprsOf_listRoots (fun s _ => exprsOf_roots s) [] u 0]
    exact nodes_inner_perm (scopeRoots [] u)
  holds := by
    intro site hsite layer hlayer
    obtain ⟨r, hr, hin⟩ := List.mem_flatMap.1 hsite
    have hnests := nests_listRoots (fun s _ => nests_roots s) [] (i := 0) rfl r hr
    exact ((hnests.inner hin).2 layer hlayer).resolve_left List.not_mem_nil

/-! ### The order of the sites -/

namespace Scoping

/-- Every call comes directly after the expressions in its arguments. -/
def ArgumentsFirst (sites : List Site) : Prop :=
  ∀ before p f es l after, sites = before ++ ⟨p, .call f es l⟩ :: after →
    (Expr.postorderList es).map (Site.mk p) <:+ before

theorem argumentsFirst_nil : ArgumentsFirst [] := by
  intro before p f es l after h
  simp at h

theorem argumentsFirst_append {rs qs : List Site} (hr : ArgumentsFirst rs) (hq : ArgumentsFirst qs) :
    ArgumentsFirst (rs ++ qs) := by
  intro before p f es l after h
  -- The call is in the second list or in the first, or it is the head of the second.
  rcases List.append_eq_append_iff.1 h with ⟨mid, hbefore, hqs⟩ | ⟨mid, hrs, hafter⟩
  · rw [hbefore]
    exact (hq mid p f es l after hqs).trans (List.suffix_append rs mid)
  · cases mid with
    | nil =>
      have hempty := hq [] p f es l after hafter.symm
      rw [List.suffix_nil.1 hempty]
      exact List.nil_suffix
    | cons site mid =>
      rw [List.cons_append, List.cons.injEq] at hafter
      exact hr before p f es l mid (hafter.1 ▸ hrs)

theorem argumentsFirst_concat {rs : List Site} {p : Place} {e : Expr} (hr : ArgumentsFirst rs)
    (he : ∀ f es l, e = .call f es l → (Expr.postorderList es).map (Site.mk p) <:+ rs) :
    ArgumentsFirst (rs ++ [⟨p, e⟩]) := by
  intro before q f es l after h
  rcases List.eq_nil_or_concat after with rfl | ⟨mid, last, rfl⟩
  · obtain ⟨rfl, hlast⟩ := List.append_inj' h rfl
    simp only [List.cons.injEq, Site.mk.injEq, and_true] at hlast
    obtain ⟨rfl, he'⟩ := hlast
    exact he f es l he'
  · rw [List.concat_eq_append, ← List.cons_append, ← List.append_assoc] at h
    exact hr before q f es l mid (List.append_inj' h rfl).1

theorem argumentsFirst_postorderList {es : List Expr} {p : Place}
    (h : ∀ e ∈ es, ArgumentsFirst (e.postorder.map (Site.mk p))) :
    ArgumentsFirst ((Expr.postorderList es).map (Site.mk p)) := by
  induction es with
  | nil => exact argumentsFirst_nil
  | cons e rest ih =>
    rw [Expr.postorderList, List.map_append]
    exact argumentsFirst_append (h e List.mem_cons_self) (ih fun e he => h e (List.mem_cons_of_mem _ he))

theorem argumentsFirst_postorder (e : Expr) (p : Place) :
    ArgumentsFirst (e.postorder.map (Site.mk p)) := by
  induction e using Expr.induct with
  | literal v l | access x l => exact argumentsFirst_concat argumentsFirst_nil nofun
  | grouping e l ih | unary op e l ih | assign x e l ih =>
    rw [Expr.postorder, List.map_append]
    exact argumentsFirst_concat ih nofun
  | binary a op b l iha ihb | logical a op b l iha ihb =>
    rw [Expr.postorder, List.map_append, List.map_append]
    exact argumentsFirst_concat (argumentsFirst_append iha ihb) nofun
  | call f es l ih =>
    rw [Expr.postorder, List.map_append]
    refine argumentsFirst_concat (argumentsFirst_postorderList ih) ?_
    intro g es' l' hcall
    obtain ⟨-, rfl, -⟩ := Expr.call.inj hcall
    exact List.suffix_rfl

end Scoping

theorem Program.argumentsFirst_sites (u : Program) : ArgumentsFirst u.sites := by
  rw [Program.sites]
  induction scopeRoots [] u with
  | nil => exact argumentsFirst_nil
  | cons r rest ih =>
    rw [List.flatMap_cons]
    exact argumentsFirst_append (argumentsFirst_postorder r.node r.place) ih

example :
    let u : Program :=
      [.declare "x" .integer (some (.access "x" 1)) 1,
       .block [.declare "y" .integer none 2] 2,
       .expression (.assign "y" (.call "f" [.access "x" 3] 3) 3) 3,
       .function "f" .void [⟨"a", .integer, 4⟩, ⟨"b", .integer, 4⟩] [.print (.access "a" 5) 5] 4 4]
    u.sites.filterMap Site.report =
      [⟨"undefined variable 'x'", 1, none⟩,
       ⟨"function 'f' expects 2 argument(s), got 1", 3, some ⟨"'f' declared here", 4⟩⟩,
       ⟨"assignment to undeclared variable 'y'", 3, none⟩] := by decide

end TreeWalk
