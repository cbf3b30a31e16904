import TreeWalk.Proofs.Scoping.Rules

/-! The parts of a report. A check first finds the functions declared twice at the top level and then visits
one statement after the other, so its faults are those duplicates followed by a segment for each statement.
The segment holds what is found in the statement, in functions inside of it too, and nothing that is found
elsewhere; the record of a function counts its segment. -/

namespace TreeWalk

open Scoping

/-! ### Segments -/

namespace Stmt

/-- The faults found in statements that follow one another in a scope, apart for each of them. -/
def segments (v : View) : List Stmt → List (List Fault)
  | [] => []
  | s :: ss => s.faults v :: segments (v.after s) ss

theorem length_segments (v : View) (ss : List Stmt) : (segments v ss).length = ss.length := by
  induction ss generalizing v with
  | nil => rfl
  | cons s ss ih => rw [segments, List.length_cons, List.length_cons, ih]

theorem flatten_segments (v : View) (ss : List Stmt) : (segments v ss).flatten = listFaults v ss := by
  induction ss generalizing v with
  | nil => rfl
  | cons s ss ih => rw [segments, List.flatten_cons, ih, listFaults]

/-- The record of a statement in which `errors` faults were found. -/
def recordOf (errors : Nat) : Stmt → Option CheckedFunction
  | .function x t ps _ _ l => some ⟨x, ps.length, t, l, errors⟩
  | _ => none

theorem record_eq (s : Stmt) (v : View) : s.record v = s.recordOf (s.faults v).length := by
  cases s <;> rfl

/-- Every record counts the segment of its statement. -/
theorem filterMap_listRecords (v : View) (ss : List Stmt) :
    (listRecords v ss).filterMap id =
      (ss.zip (segments v ss)).filterMap fun (s, segment) => s.recordOf segment.length := by
  induction ss generalizing v with
  | nil => rfl
  | cons s ss ih =>
    rw [listRecords, segments, List.zip_cons_cons, List.filterMap_cons, List.filterMap_cons, ih, record_eq]
    rfl

end Stmt

/-- The faults found in the top-level statements of a program, apart for each of them. -/
def Program.segments (u : Program) (limit : Nat) : List (List Fault) := Stmt.segments (u.view limit) u

/-- The faults of the functions that are not the first of their names at the top level. -/
def Program.duplicates (u : Program) : List Fault :=
  u.zipIdx.flatMap fun (s, i) => StmtSite.duplicates ⟨[.list u i], s⟩

namespace Scoping

theorem duplicateFunctions_eq {statements ss : List Stmt} {i : Nat} (hi : statements.drop i = ss)
    {functions : Scopes Signature} (hf : Records functions (statements.take i)) :
    duplicateFunctions functions ss =
      (ss.zipIdx i).flatMap fun (s, j) => StmtSite.duplicates ⟨[.list statements j], s⟩ := by
  induction ss generalizing i functions with
  | nil => rfl
  | cons s rest ih =>
    obtain ⟨hat, hrest⟩ := getElem?_and_drop_of_drop_eq_cons hi
    have hnext : Records (registered functions [s]) (statements.take (i + 1)) := by
      rw [List.take_add_one, hat]
      exact hf.concat s
    rw [duplicateFunctions_cons (p := [.list statements i]) hf, ih hrest hnext, List.zipIdx_cons,
      List.flatMap_cons]

/-- The segment of a statement is what is found in it from the view at its place. -/
theorem getElem?_segments {limit : Nat} {p : Place} {statements ss : List Stmt} {i : Nat}
    (hi : statements.drop i = ss) {v : View} (hm : v.Matches (.list statements i :: p))
    (hf : v.Fits limit p) {j : Nat} {s : Stmt} (hs : ss[j]? = some s) :
    ∃ w : View, (Stmt.segments v ss)[j]? = some (s.faults w) ∧
      w.Matches (.list statements (i + j) :: p) ∧ w.Fits limit (.list statements (i + j) :: p) := by
  induction ss generalizing v i j with
  | nil => simp at hs
  | cons t rest ih =>
    obtain ⟨hat, hrest⟩ := getElem?_and_drop_of_drop_eq_cons hi
    cases j with
    | zero =>
      obtain rfl : t = s := by simpa using hs
      exact ⟨v, rfl, hm, hf.list statements i⟩
    | succ j =>
      have hnext := ih hrest (hm.after hat) (hf.after t) (by simpa using hs)
      rwa [Nat.add_assoc, Nat.add_comm 1 j] at hnext

end Scoping

/-! ### What a segment holds -/

/-- The expressions in a statement at a place, with their own places. -/
def Stmt.sites (p : Place) (s : Stmt) : List Site := (s.roots p).flatMap Site.inner

theorem Stmt.sites_perm (s : Stmt) (p : Place) : ((s.sites p).map Site.node).Perm (Node.exprs s.walk) := by
  rw [← exprsOf_roots s p]
  exact nodes_inner_perm (s.roots p)

namespace Scoping

/-- All that is around an expression in a top-level statement holds it. -/
theorem holds_sites {u : Program} {i : Nat} {s : Stmt} (hs : u[i]? = some s) :
    ∀ r ∈ s.sites [.list u i], ∀ layer ∈ r.place, layer.Holds r.node := by
  intro r hr layer hlayer
  obtain ⟨root, hroot, hin⟩ := List.mem_flatMap.1 hr
  obtain ⟨hmem, hlayers⟩ := (nests_roots s _ root hroot).inner hin
  rcases hlayers layer hlayer with hself | hholds
  · obtain rfl := List.mem_singleton.1 hself
    refine ⟨s, hs, ?_⟩
    rw [← exprsOf_roots s [.list u i]]
    exact List.mem_flatMap.2 ⟨root, hroot, hmem⟩
  · exact hholds

/-- The faults in a statement, and the one of its list about itself, are those of the rules at its
statements and of lexical scoping at its expressions. -/
theorem faults_perm {v : View} {limit : Nat} {p : Place} (hm : v.Matches p) (hf : v.Fits limit p)
    (s : Stmt) : (s.faults v ++ StmtSite.duplicates ⟨p, s⟩).Perm
      ((s.stmtSites p).flatMap (StmtSite.faults limit) ++ (s.sites p).filterMap Site.fault?) := by
  have hrules := ruled s v p hf
  have huses : (s.faults v).filter Fault.isUse = (s.sites p).filterMap Site.fault? := by
    rw [lexical s v p hm, Stmt.sites, List.filterMap_flatMap]
    rfl
  have hsplit := List.filter_append_perm Fault.isUse (s.faults v)
  rw [← huses]
  rw [List.perm_iff_count] at hrules hsplit ⊢
  intro f
  have hrulesf := hrules f
  have hsplitf := hsplit f
  simp only [ruleFaults, List.count_append] at hrulesf hsplitf ⊢
  omega

/-- The reports about what is inside the statement with index `i` of a program. -/
structure IsSegment (u : Program) (limit i : Nat) (s : Stmt) (segment : List Fault) : Prop where
  /-- The sites of the statement are the statements and the expressions in it. -/
  stmts : (s.stmtSites [.list u i]).map StmtSite.node = Node.stmts s.walk
  exprs : ((s.sites [.list u i]).map Site.node).Perm (Node.exprs s.walk)
  /-- Each of them stands at its place. -/
  stands : ∀ r ∈ s.stmtSites [.list u i], Stands u r.place r.node
  holds : ∀ r ∈ s.sites [.list u i], ∀ layer ∈ r.place, layer.Holds r.node
  /-- All that is reported at the sites is in the segment, but for the report that the statement itself
  is a function declared before, and nothing else is. -/
  reports : ((segment ++ StmtSite.duplicates ⟨[.list u i], s⟩).map Fault.diagnostic).Perm
    ((s.stmtSites [.list u i]).flatMap (StmtSite.reports limit) ++
      (s.sites [.list u i]).filterMap Site.report)

/-- A report about a program, with one segment for each top-level statement. -/
structure IsAccount (u : Program) (limit : Nat) (report : CheckReport) (segments : List (List Fault)) :
    Prop where
  length : segments.length = u.length
  functions : report.functions =
    (u.zip segments).filterMap fun (s, segment) => s.recordOf segment.length
  faults : report.faults = u.duplicates ++ segments.flatten
  inside : ∀ i s segment, u[i]? = some s → segments[i]? = some segment → IsSegment u limit i s segment

theorem map_faults_eq_reports (limit : Nat) (rs : List StmtSite) (qs : List Site) :
    (rs.flatMap (StmtSite.faults limit) ++ qs.filterMap Site.fault?).map Fault.diagnostic =
      rs.flatMap (StmtSite.reports limit) ++ qs.filterMap Site.report := by
  rw [List.map_append, List.map_flatMap, List.map_filterMap, funext (StmtSite.reports_eq limit),
    funext Site.report_eq]

end Scoping

open Scoping

theorem Program.isSegment {u : Program} {limit i : Nat} {s : Stmt} {segment : List Fault}
    (hs : u[i]? = some s) (hsegment : (u.segments limit)[i]? = some segment) :
    IsSegment u limit i s segment := by
  obtain ⟨w, hw, hm, hf⟩ :=
    getElem?_segments List.drop_zero (View.Matches.start u limit) (View.Fits.start u limit) hs
  rw [Nat.zero_add] at hm hf
  obtain rfl : s.faults w = segment := by
    rw [Program.segments, hw] at hsegment
    exact Option.some.inj hsegment
  exact {
    stmts := nodes_stmtSites s _
    exprs := s.sites_perm _
    stands := settled s _ (.top hs)
    holds := holds_sites hs
    reports := by
      rw [← map_faults_eq_reports]
      exact (faults_perm hm hf s).map Fault.diagnostic }

/-- The records of functions account for the diagnostics. There is one record for each function at the top
level, in order, and the faults are those of functions declared twice there, then one segment for each
top-level statement. The record of a function counts its segment, which holds all reports about what is
inside the function and no others. -/
theorem Program.check_isAccount (u : Program) (limit : Nat) :
    IsAccount u limit (u.check limit) (u.segments limit) where
  length := Stmt.length_segments (u.view limit) u
  functions := by
    rw [Program.check_eq]
    exact Stmt.filterMap_listRecords (u.view limit) u
  faults := by
    have hduplicates : duplicateFunctions {} u = u.duplicates :=
      duplicateFunctions_eq List.drop_zero fun _ => rfl
    rw [Program.check_eq, hduplicates, Program.segments, Stmt.flatten_segments]
  inside _ _ _ hs hsegment := u.isSegment hs hsegment

example :
    let inner : Stmt := .function "f" .void [] [.print (.access "x" 3) 3] 3 3
    let u : Program :=
      [.function "f" .integer [⟨"a", .integer, 1⟩, ⟨"a", .integer, 2⟩] [inner, inner] 2 1,
       .ret (some (.access "y" 4)) 4,
       .function "f" .void [] [] 5 5]
    u.duplicates = [.duplicateFunction "f" 5 1] ∧
    u.segments 1 =
      [[.tooManyParameters "f" 2 1 1, .duplicateParameter "a" "f" 2, .duplicateFunction "f" 3 3,
        .undefinedVariable "x" 3, .undefinedVariable "x" 3],
       [.returnOutside 4, .undefinedVariable "y" 4], []] ∧
    (u.check 1).functions.map CheckedFunction.errors = [5, 0] := by decide

end TreeWalk
