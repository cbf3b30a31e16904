import TreeWalk.Query
import TreeWalk.Proofs.Scoping.Comparison
import TreeWalk.Proofs.Scoping.Segments

/-! Functions in another order. All functions of a list are registered before the first is visited, and a
function leaves nothing behind. So where a program consists of functions with different names, what is found
in each of them does not depend on their order. -/

namespace TreeWalk

open Scoping

/-- A program that consists of functions with different names. -/
structure Program.DistinctFunctions (u : Program) : Prop where
  functions : ∀ s ∈ u, s.isFunction
  names : (u.map Stmt.label?).Nodup

theorem Program.DistinctFunctions.of_perm {u w : Program} (hu : u.DistinctFunctions) (hw : w.Perm u) :
    w.DistinctFunctions where
  functions s hs := hu.functions s (hw.mem_iff.1 hs)
  names := (hw.map Stmt.label?).nodup_iff.2 hu.names

theorem Stmt.label?_of_signature? {s : Stmt} {f : String} {signature : Signature}
    (h : s.signature? f = some signature) : s.label? = some f := by
  cases s with
  | function name t ps body k l =>
    by_cases hname : name = f
    · rw [Stmt.label?, hname]
    · simp [Stmt.signature?, hname] at h
  | _ => simp [Stmt.signature?] at h

namespace Scoping

/-- Where names are different, looking one up does not depend on the order. -/
theorem findSome?_signature?_perm {u w : Program} (h : w.Perm u) (hw : (w.map Stmt.label?).Nodup)
    (f : String) : w.findSome? (Stmt.signature? f) = u.findSome? (Stmt.signature? f) := by
  induction h with
  | nil => rfl
  | cons s _ ih =>
    rw [List.map_cons, List.nodup_cons] at hw
    rw [List.findSome?_cons, List.findSome?_cons, ih hw.2]
  | swap s t l =>
    have hne : t.label? ≠ s.label? := by
      intro heq
      simp [heq] at hw
    cases ht : t.signature? f with
    | none => simp [List.findSome?_cons, ht]
    | some first =>
      cases hs : s.signature? f with
      | none => simp [ht, hs]
      | some second =>
        exact absurd ((Stmt.label?_of_signature? ht).trans (Stmt.label?_of_signature? hs).symm) hne
  | trans h₁ _ ih₁ ih₂ => exact (ih₁ hw).trans (ih₂ ((h₁.map Stmt.label?).nodup_iff.1 hw))

theorem duplicateFunctions_eq_nil {functions : Scopes Signature} {ss : List Stmt}
    (hss : (ss.map Stmt.label?).Nodup)
    (hfree : ∀ s ∈ ss, ∀ x, s.label? = some x → functions.innermost.lookup x = none) :
    duplicateFunctions functions ss = [] := by
  induction ss generalizing functions with
  | nil => rfl
  | cons s rest ih =>
    rw [List.map_cons, List.nodup_cons] at hss
    have hrest : ∀ t ∈ rest, ∀ x, t.label? = some x → functions.innermost.lookup x = none :=
      fun t ht => hfree t (List.mem_cons_of_mem _ ht)
    cases s with
    | function name t ps body k l =>
      rw [duplicateFunctions, hfree _ List.mem_cons_self name rfl, ih hss.2]
      · rfl
      · intro t ht x hx
        have hne : name ≠ x := by
          rintro rfl
          exact hss.1 (List.mem_map.2 ⟨t, ht, hx⟩)
        rw [Scopes.innermost_declare, hrest t ht x hx, if_neg hne, Option.none_or]
    | _ => exact ih hss.2 hrest

theorem after_function {s : Stmt} (h : s.isFunction) (v : View) : v.after s = v := by
  cases s with
  | function name t ps body k l => rfl
  | _ => simp [Stmt.isFunction] at h

/-- Functions leave nothing behind, so the faults of each are found from the same view. -/
theorem listFaults_functions {ss : List Stmt} (h : ∀ s ∈ ss, s.isFunction) (v : View) :
    Stmt.listFaults v ss = ss.flatMap (Stmt.faults v) := by
  induction ss with
  | nil => rfl
  | cons s rest ih =>
    rw [Stmt.listFaults, after_function (h s List.mem_cons_self), List.flatMap_cons,
      ih fun t ht => h t (List.mem_cons_of_mem _ ht)]

theorem listRecords_functions {ss : List Stmt} (h : ∀ s ∈ ss, s.isFunction) (v : View) :
    Stmt.listRecords v ss = ss.map (Stmt.record v) := by
  induction ss with
  | nil => rfl
  | cons s rest ih =>
    rw [Stmt.listRecords, after_function (h s List.mem_cons_self), List.map_cons,
      ih fun t ht => h t (List.mem_cons_of_mem _ ht)]

theorem alike_of_perm {u w : Program} (hu : u.DistinctFunctions) (hw : w.Perm u) (limit : Nat) :
    (w.view limit).Alike (fun _ => true) (u.view limit) where
  functions f := by
    have hlookup (u : Program) : (u.view limit).functions.lookup f = Place.function? [.list u 0] f :=
      (View.Matches.start u limit).functions f
    rw [hlookup, hlookup, Place.function?_cons, Place.function?_cons]
    exact congrArg (Option.or · _) (findSome?_signature?_perm hw (hu.of_perm hw).names f)
  bound := rfl
  functionDepth := rfl
  limit := .inl rfl

end Scoping

/-- The report that consists of a record and a block of faults for each function. -/
def CheckReport.ofBlocks (block : Stmt → List Fault) (functions : List Stmt) : CheckReport :=
  ⟨functions.filterMap fun s => s.recordOf (block s).length, functions.flatMap block⟩

/-- A check of the functions in another order finds in each of them what it finds in the first order. -/
theorem Program.check_eq_ofBlocks {u w : Program} (hu : u.DistinctFunctions) (hw : w.Perm u)
    (limit : Nat) : w.check limit = .ofBlocks (Stmt.faults (u.view limit)) w := by
  have hwf := (hu.of_perm hw).functions
  have hblock (s : Stmt) : s.faults (w.view limit) = s.faults (u.view limit) := by
    have hfilter := View.Alike.invariant s _ _ (alike_of_perm hu hw limit)
    rwa [List.filter_true, List.filter_true] at hfilter
  have hrecord (s : Stmt) : s.record (w.view limit) = s.recordOf (s.faults (u.view limit)).length := by
    rw [Stmt.record_eq, hblock]
  have hnone : duplicateFunctions {} w = [] :=
    duplicateFunctions_eq_nil (hu.of_perm hw).names fun _ _ _ _ => rfl
  rw [check_eq, hnone, List.nil_append, listFaults_functions hwf, listRecords_functions hwf,
    List.filterMap_map, funext hblock]
  exact congrArg (CheckReport.mk · _) (List.filterMap_congr fun s _ => hrecord s)

/-- The order of functions does not matter. Where a program consists of functions with different names, a
check of the same functions in another order gives for each function the same record and the same block of
faults, and nothing else. -/
theorem Program.check_perm {u w : Program} (hu : u.DistinctFunctions) (hw : w.Perm u) (limit : Nat) :
    ∃ block : Stmt → List Fault,
      u.check limit = .ofBlocks block u ∧ w.check limit = .ofBlocks block w :=
  ⟨Stmt.faults (u.view limit), check_eq_ofBlocks hu (.refl u) limit, check_eq_ofBlocks hu hw limit⟩

theorem Program.check_perm_mutual :
    let f : Stmt := .function "f" .void [] [.expression (.call "g" [] 2) 2] 1 1
    let g : Stmt := .function "g" .void [⟨"a", .integer, 3⟩]
      [.expression (.call "f" [.access "b" 4] 4) 4] 3 3
    Program.DistinctFunctions [f, g] ∧ List.Perm [g, f] [f, g] ∧
      ∃ block : Stmt → List Fault, Program.check [f, g] 0 = .ofBlocks block [f, g] ∧
        Program.check [g, f] 0 = .ofBlocks block [g, f] := by
  intro f g
  have hdistinct : Program.DistinctFunctions [f, g] := ⟨by decide, by decide⟩
  exact ⟨hdistinct, .swap f g [], Program.check_perm hdistinct (.swap f g []) 0⟩

end TreeWalk
