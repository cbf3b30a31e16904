import TreeWalk.Proofs.Scoping.Places

/-! The statements of a program with their places, and the rules that need no names of expressions. A
function must be the first of its name in its list of statements, its parameters must have different
names and must not be too many, and a `return` must be inside a function. Each rule is read off the place
of the statement, and a statement that keeps the rules gives no report. -/

namespace TreeWalk

namespace Scoping

/-- A statement of a program and its place. -/
structure StmtSite where
  place : Place
  node : Stmt

namespace Place

/-- The statements before the place in its own list. -/
def earlier : Place → List Stmt
  | .list statements index :: _ => statements.take index
  | _ => []

def inFunction (p : Place) : Bool :=
  p.any fun
    | .function _ _ => true
    | .list _ _ => false

end Place

/-- The parameters whose names occur earlier in the list. -/
def repeatedParameters (parameters : List Parameter) : List Parameter :=
  (parameters.zipIdx.filter fun (q, i) => (parameters.take i).any (·.name == q.name)).map (·.1)

/-- What the rules say against a statement, where functions may have `limit` parameters. -/
def StmtSite.reports (limit : Nat) : StmtSite → List Diagnostic
  | ⟨p, .function f _ parameters _ _ l⟩ =>
    (match p.earlier.findSome? (Stmt.signature? f) with
      | none => []
      | some first =>
        [⟨"duplicate function '" ++ f ++ "' in this scope", l,
          some ⟨"'" ++ f ++ "' first declared here", first.line⟩⟩]) ++
    (if limit < parameters.length then
        [⟨"function '" ++ f ++ "' has " ++ toString parameters.length ++ " parameters; at most " ++
          toString limit ++ " are allowed", l, none⟩]
      else []) ++
    (repeatedParameters parameters).map fun q =>
      ⟨"duplicate parameter '" ++ q.name ++ "' in function '" ++ f ++ "'", q.line, none⟩
  | ⟨p, .ret _ l⟩ => if p.inFunction then [] else [⟨"'return' outside of a function", l, none⟩]
  | _ => []

end Scoping

open Scoping

mutual

/-- A statement at a place and the statements in it, in source order. A block that is a branch has no
list of its own, so its place is that of its `if`. -/
def Stmt.stmtSites (p : Place) : Stmt → List StmtSite
  | .function x t ps body k l =>
    ⟨p, .function x t ps body k l⟩ :: Stmt.listStmtSites (.function ps body :: p) body 0 body
  | .block ss l => ⟨p, .block ss l⟩ :: Stmt.listStmtSites p ss 0 ss
  | .expression e l => [⟨p, .expression e l⟩]
  | .branch c s o l =>
    ⟨p, .branch c s o l⟩ ::
      ((match s with
        | .block ss k => ⟨p, .block ss k⟩ :: Stmt.listStmtSites p ss 0 ss
        | other => other.stmtSites (.list [other] 0 :: p)) ++
      (match o with
        | none => []
        | some (.block ss k) => ⟨p, .block ss k⟩ :: Stmt.listStmtSites p ss 0 ss
        | some other => other.stmtSites (.list [other] 0 :: p)))
  | .print e l => [⟨p, .print e l⟩]
  | .declare x t e l => [⟨p, .declare x t e l⟩]
  | .loop c body k l => ⟨p, .loop c body k l⟩ :: Stmt.listStmtSites p body 0 body
  | .ret e l => [⟨p, .ret e l⟩]

/-- The statements of a list from an index on, and those in them. -/
def Stmt.listStmtSites (p : Place) (statements : List Stmt) (index : Nat) : List Stmt → List StmtSite
  | [] => []
  | s :: rest =>
    s.stmtSites (.list statements index :: p) ++ Stmt.listStmtSites p statements (index + 1) rest

end

namespace Scoping

/-- The statements of a list, and those in them. -/
def scopeStmtSites (p : Place) (statements : List Stmt) : List StmtSite :=
  Stmt.listStmtSites p statements 0 statements

/-- The statements of a branch, and the branch itself if it is a block. -/
def branchStmtSites (p : Place) (s : Stmt) : List StmtSite :=
  (if s.isBlock then [⟨p, s⟩] else []) ++ scopeStmtSites p s.branchStatements

theorem stmtSites_branch (p : Place) (c : Expr) (s : Stmt) (o : Option Stmt) (l : Line) :
    (Stmt.branch c s o l).stmtSites p =
      ⟨p, .branch c s o l⟩ :: (branchStmtSites p s ++ o.toList.flatMap (branchStmtSites p)) := by
  have hlone (s : Stmt) : scopeStmtSites p [s] = s.stmtSites (.list [s] 0 :: p) := by
    simp [scopeStmtSites, Stmt.listStmtSites]
  rw [Stmt.stmtSites.eq_def]
  dsimp only
  congr 2
  · cases s with
    | block ss k => rfl
    | _ => exact (hlone _).symm
  · cases o with
    | none => rfl
    | some t =>
      rw [Option.toList_some, List.flatMap_singleton]
      cases t with
      | block ss k => rfl
      | _ => exact (hlone _).symm

end Scoping

/-- All statements of a program, with their places. -/
def Program.stmtSites (u : Program) : List StmtSite := scopeStmtSites [] u

/-! ### The sites are the statements of the program -/

namespace Scoping

theorem nodes_listStmtSites {ss : List Stmt}
    (h : ∀ s ∈ ss, ∀ p, (s.stmtSites p).map StmtSite.node = Node.stmts s.walk) (p : Place)
    (statements : List Stmt) (i : Nat) :
    (Stmt.listStmtSites p statements i ss).map StmtSite.node = Node.stmts (Stmt.walkList ss) := by
  induction ss generalizing i with
  | nil => rfl
  | cons s rest ih =>
    rw [Stmt.listStmtSites, List.map_append, h s List.mem_cons_self,
      ih fun t ht => h t (List.mem_cons_of_mem _ ht), Stmt.walkList, Node.stmts_append]

theorem nodes_branchStmtSites {s : Stmt}
    (h : ∀ t ∈ s.branchStatements, ∀ p, (t.stmtSites p).map StmtSite.node = Node.stmts t.walk)
    (p : Place) : (branchStmtSites p s).map StmtSite.node = Node.stmts s.walk := by
  rw [branchStmtSites, List.map_append, scopeStmtSites, nodes_listStmtSites h]
  cases hs : s.isBlock with
  | true =>
    obtain ⟨ss, k, rfl⟩ := Stmt.isBlock_iff.1 hs
    simp [Stmt.branchStatements, Stmt.walk]
  | false => simp [Stmt.branchStatements_lone hs, Stmt.walkList]

/-- The statements at the sites of a statement are those of a walk, in the same order. -/
theorem nodes_stmtSites (s : Stmt) (p : Place) :
    (s.stmtSites p).map StmtSite.node = Node.stmts s.walk := by
  induction s using Stmt.scopeInduct generalizing p with
  | function x t ps body k l ih | block ss l ih | loop c body k l ih =>
    simp [Stmt.stmtSites, Stmt.walk, nodes_listStmtSites ih]
  | expression e l | print e l | declare x t e l | ret e l => simp [Stmt.stmtSites, Stmt.walk]
  | branch c s o l ihs iho =>
    cases o with
    | none => simp [stmtSites_branch, Stmt.walk, Stmt.walkOption, nodes_branchStmtSites ihs]
    | some t =>
      simp [stmtSites_branch, Stmt.walk, Stmt.walkOption, nodes_branchStmtSites ihs,
        nodes_branchStmtSites (iho t rfl)]

/-- A statement stands at a place of a program: at the top level, or in the body, the block or the branch
of a statement that stands somewhere itself. -/
inductive Stands (u : Program) : Place → Stmt → Prop where
  | top {i s} (hs : u[i]? = some s) : Stands u [.list u i] s
  | function {p x t ps body k l i s} (h : Stands u p (.function x t ps body k l))
      (hs : body[i]? = some s) : Stands u (.list body i :: .function ps body :: p) s
  | block {p ss l i s} (h : Stands u p (.block ss l)) (hs : ss[i]? = some s) :
      Stands u (.list ss i :: p) s
  | loop {p c body k l i s} (h : Stands u p (.loop c body k l)) (hs : body[i]? = some s) :
      Stands u (.list body i :: p) s
  | branchBlock {p c s o l b} (h : Stands u p (.branch c s o l)) (hb : b = s ∨ o = some b)
      (hblock : b.isBlock) : Stands u p b
  | branchLone {p c s o l b} (h : Stands u p (.branch c s o l)) (hb : b = s ∨ o = some b)
      (hlone : b.isBlock = false) : Stands u (.list [b] 0 :: p) b

variable {u : Program}

/-- Where the statement stands, all its sites stand at theirs. -/
def Settled (u : Program) (s : Stmt) : Prop :=
  ∀ p, Stands u p s → ∀ r ∈ s.stmtSites p, Stands u r.place r.node

theorem stands_listStmtSites {ss : List Stmt} (h : ∀ s ∈ ss, Settled u s) {p : Place}
    {statements : List Stmt} {i : Nat}
    (hin : ∀ j s, statements[j]? = some s → Stands u (.list statements j :: p) s)
    (hi : statements.drop i = ss) :
    ∀ r ∈ Stmt.listStmtSites p statements i ss, Stands u r.place r.node := by
  induction ss generalizing i with
  | nil => simp [Stmt.listStmtSites]
  | cons s rest ih =>
    intro r hr
    obtain ⟨hat, hrest⟩ := getElem?_and_drop_of_drop_eq_cons hi
    rw [Stmt.listStmtSites, List.mem_append] at hr
    rcases hr with hr | hr
    · exact h s List.mem_cons_self _ (hin i s hat) r hr
    · exact ih (fun t ht => h t (List.mem_cons_of_mem _ ht)) hrest r hr

theorem stands_branchStmtSites {p : Place} {c : Expr} {s : Stmt} {o : Option Stmt} {l : Line} {b : Stmt}
    (hb : b = s ∨ o = some b) (h : ∀ t ∈ b.branchStatements, Settled u t)
    (hp : Stands u p (.branch c s o l)) : ∀ r ∈ branchStmtSites p b, Stands u r.place r.node := by
  intro r hr
  rw [branchStmtSites, List.mem_append] at hr
  cases hblock : b.isBlock with
  | true =>
    have hstands : Stands u p b := .branchBlock hp hb hblock
    rw [if_pos hblock, List.mem_singleton] at hr
    rcases hr with rfl | hr
    · exact hstands
    · obtain ⟨ss, k, rfl⟩ := Stmt.isBlock_iff.1 hblock
      exact stands_listStmtSites h (fun j t ht => .block hstands ht) rfl r hr
  | false =>
    simp only [hblock, Bool.false_eq_true, if_false, List.not_mem_nil, false_or,
      Stmt.branchStatements_lone hblock] at hr h
    refine stands_listStmtSites h (fun j t ht => ?_) rfl r hr
    -- The only statement of the list is the branch itself.
    obtain ⟨rfl, rfl⟩ : j = 0 ∧ b = t := by simpa [List.getElem?_singleton] using ht
    exact .branchLone hp hb hblock

theorem settled (s : Stmt) : Settled u s := by
  induction s using Stmt.scopeInduct with
  | function x t ps body k l ih =>
    intro p hp r hr
    rw [Stmt.stmtSites, List.mem_cons] at hr
    rcases hr with rfl | hr
    · exact hp
    · exact stands_listStmtSites ih (fun j s hs => .function hp hs) rfl r hr
  | block ss l ih =>
    intro p hp r hr
    rw [Stmt.stmtSites, List.mem_cons] at hr
    rcases hr with rfl | hr
    · exact hp
    · exact stands_listStmtSites ih (fun j s hs => .block hp hs) rfl r hr
  | loop c body k l ih =>
    intro p hp r hr
    rw [Stmt.stmtSites, List.mem_cons] at hr
    rcases hr with rfl | hr
    · exact hp
    · exact stands_listStmtSites ih (fun j s hs => .loop hp hs) rfl r hr
  | branch c s o l ihs iho =>
    intro p hp r hr
    rw [stmtSites_branch, List.mem_cons, List.mem_append, List.mem_flatMap] at hr
    rcases hr with rfl | hr | ⟨t, ht, hr⟩
    · exact hp
    · exact stands_branchStmtSites (.inl rfl) ihs hp r hr
    · have ho : o = some t := Option.mem_toList.1 ht
      exact stands_branchStmtSites (.inr ho) (iho t ho) hp r hr
  | expression e l | print e l | declare x t e l | ret e l =>
    intro p hp r hr
    rw [Stmt.stmtSites, List.mem_singleton] at hr
    exact hr ▸ hp

/-- The sites are the statements of a program, in order, and each stands at its place. -/
structure IsStmtSurvey (u : Program) (sites : List StmtSite) : Prop where
  nodes : sites.map StmtSite.node = Node.stmts (Stmt.walkList u)
  stands : ∀ r ∈ sites, Stands u r.place r.node

end Scoping

theorem Program.isStmtSurvey_stmtSites (u : Program) : IsStmtSurvey u u.stmtSites where
  nodes := nodes_listStmtSites (fun s _ => nodes_stmtSites s) [] u 0
  stands := stands_listStmtSites (fun s _ => settled s) (fun _ _ hs => .top hs) rfl

end TreeWalk
