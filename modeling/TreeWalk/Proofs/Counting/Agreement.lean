import Mathlib.Data.List.Basic
import TreeWalk.Proofs.Counting.Effect
import TreeWalk.Proofs.Traversal.Journey

/-! The census agrees with the queries. The sum of the counts of any set of kinds grows by one with every
tally of a kind in the set. Entries are kept in the order of kinds, so that a kind has at most one, and
none is zero; hence the entry of a kind is the whole sum of that kind, and a kind has an entry if and only
if that sum is positive. The kinds that a census tallies are those of the statements and expressions that
the queries see. -/

namespace TreeWalk

namespace Counts

/-- Counts one more node of each kind of a list. -/
def tallies (kinds : List NodeKind) (counts : Counts) : Counts :=
  kinds.foldl (fun counts kind => counts.tally kind) counts

/-! ### Sums -/

/-- The sum of the counts of the kinds that satisfy `q`. -/
def sumOf (q : NodeKind → Bool) (counts : Counts) : Nat :=
  ((counts.filter (q ·.1)).map (·.2)).foldr (· + ·) 0

theorem sumOf_cons (q : NodeKind → Bool) (k : NodeKind) (n : Nat) (rest : Counts) :
    sumOf q ((k, n) :: rest) = (if q k then n else 0) + sumOf q rest := by
  by_cases h : q k <;> simp [sumOf, h]

theorem sumOf_tally (q : NodeKind → Bool) (kind : NodeKind) (counts : Counts) :
    sumOf q (counts.tally kind) = sumOf q counts + if q kind then 1 else 0 := by
  induction counts with
  | nil =>
    rw [tally, sumOf_cons]
    exact Nat.add_comm _ _
  | cons entry rest ih =>
    obtain ⟨k, n⟩ := entry
    by_cases hk : k = kind
    · rw [tally, if_pos hk, sumOf_cons, sumOf_cons, ← hk]
      by_cases h : q k
      · simp only [h, if_true]
        omega
      · simp [h]
    · by_cases hrank : kind.rank < k.rank
      · rw [tally, if_neg hk, if_pos hrank, sumOf_cons]
        omega
      · rw [tally, if_neg hk, if_neg hrank, sumOf_cons, sumOf_cons, ih]
        omega

/-- Tallies raise the sum by the number of kinds that satisfy `q`. -/
theorem sumOf_tallies (q : NodeKind → Bool) (kinds : List NodeKind) (counts : Counts) :
    sumOf q (counts.tallies kinds) = sumOf q counts + kinds.countP q := by
  induction kinds generalizing counts with
  | nil => rfl
  | cons kind kinds ih =>
    have hrest := ih (counts.tally kind)
    rw [sumOf_tally, Nat.add_assoc] at hrest
    rw [List.countP_cons, Nat.add_comm (kinds.countP q)]
    exact hrest

theorem exists_of_sumOf_pos {q : NodeKind → Bool} {counts : Counts} (h : 0 < sumOf q counts) :
    ∃ entry ∈ counts, q entry.1 := by
  induction counts with
  | nil => exact absurd h (Nat.lt_irrefl 0)
  | cons entry rest ih =>
    obtain ⟨k, n⟩ := entry
    by_cases hk : q k
    · exact ⟨(k, n), List.mem_cons_self, hk⟩
    · rw [sumOf_cons, if_neg hk, Nat.zero_add] at h
      obtain ⟨entry, hentry, hq⟩ := ih h
      exact ⟨entry, List.mem_cons_of_mem _ hentry, hq⟩

/-! ### Entries -/

theorem rank_injective (a b : NodeKind) (h : a.rank = b.rank) : a = b := by
  have hmem (k : NodeKind) : k ∈ NodeKind.all := by
    rcases k with k | k <;> cases k <;> decide
  exact (List.idxOf_inj (hmem a)).1 h

/-- The entries stand in the order of kinds, each kind at most once, and none is zero. -/
structure IsProper (counts : Counts) : Prop where
  sorted : counts.Pairwise fun a b => a.1.rank < b.1.rank
  positive : ∀ entry ∈ counts, 0 < entry.2

theorem IsProper.tail {entry : NodeKind × Nat} {rest : Counts} (h : IsProper (entry :: rest)) :
    IsProper rest :=
  ⟨(List.pairwise_cons.1 h.sorted).2, fun e he => h.positive e (List.mem_cons_of_mem _ he)⟩

theorem IsProper.cons {entry : NodeKind × Nat} {rest : Counts} (h : IsProper rest) (hpos : 0 < entry.2)
    (hlt : ∀ e ∈ rest, entry.1.rank < e.1.rank) : IsProper (entry :: rest) :=
  ⟨List.pairwise_cons.2 ⟨hlt, h.sorted⟩, List.forall_mem_cons.2 ⟨hpos, h.positive⟩⟩

/-- A tally adds no kind but its own. -/
theorem kind_of_mem_tally {kind : NodeKind} {counts : Counts} {entry : NodeKind × Nat}
    (h : entry ∈ counts.tally kind) : entry.1 = kind ∨ ∃ old ∈ counts, old.1 = entry.1 := by
  induction counts with
  | nil => exact .inl (congrArg Prod.fst (List.mem_singleton.1 h))
  | cons old rest ih =>
    obtain ⟨k, n⟩ := old
    by_cases hk : k = kind
    · rw [tally, if_pos hk] at h
      rcases List.mem_cons.1 h with rfl | h
      · exact .inl hk
      · exact .inr ⟨entry, List.mem_cons_of_mem _ h, rfl⟩
    · by_cases hrank : kind.rank < k.rank
      · rw [tally, if_neg hk, if_pos hrank] at h
        rcases List.mem_cons.1 h with rfl | h
        · exact .inl rfl
        · exact .inr ⟨entry, h, rfl⟩
      · rw [tally, if_neg hk, if_neg hrank] at h
        rcases List.mem_cons.1 h with rfl | h
        · exact .inr ⟨(k, n), List.mem_cons_self, rfl⟩
        · obtain hkind | ⟨old, hold, heq⟩ := ih h
          · exact .inl hkind
          · exact .inr ⟨old, List.mem_cons_of_mem _ hold, heq⟩

theorem IsProper.tally {counts : Counts} (h : IsProper counts) (kind : NodeKind) :
    IsProper (counts.tally kind) := by
  induction counts with
  | nil => exact .cons h Nat.one_pos fun e he => absurd he List.not_mem_nil
  | cons entry rest ih =>
    obtain ⟨k, n⟩ := entry
    have hlt := (List.pairwise_cons.1 h.sorted).1
    by_cases hk : k = kind
    · rw [Counts.tally, if_pos hk]
      exact h.tail.cons (Nat.succ_pos n) hlt
    · by_cases hrank : kind.rank < k.rank
      · rw [Counts.tally, if_neg hk, if_pos hrank]
        refine h.cons Nat.one_pos (List.forall_mem_cons.2 ⟨hrank, fun e he => ?_⟩)
        exact Nat.lt_trans hrank (hlt e he)
      · rw [Counts.tally, if_neg hk, if_neg hrank]
        refine (ih h.tail).cons (h.positive (k, n) List.mem_cons_self) fun e he => ?_
        obtain hkind | ⟨old, hold, heq⟩ := kind_of_mem_tally he
        · have hne : k.rank ≠ kind.rank := fun heq => hk (rank_injective k kind heq)
          rw [hkind]
          exact Nat.lt_of_le_of_ne (Nat.le_of_not_lt hrank) hne
        · rw [← heq]
          exact hlt old hold

theorem IsProper.tallies {counts : Counts} (h : IsProper counts) (kinds : List NodeKind) :
    IsProper (counts.tallies kinds) := by
  induction kinds generalizing counts with
  | nil => exact h
  | cons kind kinds ih => exact ih (h.tally kind)

/-- The entry of a kind is the whole sum of the kind, and it is what looking the kind up gives. -/
theorem IsProper.entry {counts : Counts} (h : IsProper counts) {k : NodeKind} {n : Nat}
    (hmem : (k, n) ∈ counts) : sumOf (· == k) counts = n ∧ counts.count k = n := by
  induction counts with
  | nil => exact absurd hmem List.not_mem_nil
  | cons entry rest ih =>
    obtain ⟨k', n'⟩ := entry
    have hlt := (List.pairwise_cons.1 h.sorted).1
    rcases List.mem_cons.1 hmem with heq | hrest
    · obtain ⟨rfl, rfl⟩ := Prod.mk.inj heq
      have hzero : sumOf (· == k) rest = 0 := by
        refine Nat.eq_zero_of_not_pos fun hpos => ?_
        obtain ⟨e, he, hk⟩ := exists_of_sumOf_pos hpos
        have hrank := hlt e he
        rw [eq_of_beq hk] at hrank
        exact Nat.lt_irrefl _ hrank
      constructor
      · simp [sumOf_cons, hzero]
      · simp [count]
    · have hne : k' ≠ k := by
        rintro rfl
        exact Nat.lt_irrefl _ (hlt (k', n) hrest)
      have hlookup : (k == k') = false := beq_eq_false_iff_ne.2 (Ne.symm hne)
      obtain ⟨hsum, hcount⟩ := ih h.tail hrest
      constructor
      · simpa [sumOf_cons, hne] using hsum
      · simpa [count, List.lookup_cons, hlookup] using hcount

theorem IsProper.mem_iff {counts : Counts} (h : IsProper counts) {k : NodeKind} {n : Nat} :
    (k, n) ∈ counts ↔ n = sumOf (· == k) counts ∧ 0 < n := by
  constructor
  · intro hmem
    exact ⟨(h.entry hmem).1.symm, h.positive _ hmem⟩
  · rintro ⟨rfl, hpos⟩
    obtain ⟨⟨k', m⟩, hmem, hk⟩ := exists_of_sumOf_pos hpos
    obtain rfl : k' = k := eq_of_beq hk
    rw [(h.entry hmem).1]
    exact hmem

theorem IsProper.count_eq {counts : Counts} (h : IsProper counts) (k : NodeKind) :
    counts.count k = sumOf (· == k) counts := by
  by_cases hpos : 0 < sumOf (· == k) counts
  · exact (h.entry (h.mem_iff.2 ⟨rfl, hpos⟩)).2
  · have hnone : counts.lookup k = none := by
      rw [List.lookup_eq_none_iff]
      rintro ⟨k', n⟩ hentry
      obtain ⟨hsum, hn⟩ := h.mem_iff.1 hentry
      refine bne_iff_ne.2 fun heq => hpos ?_
      rw [heq, ← hsum]
      exact hn
    rw [count, hnone, Nat.eq_zero_of_not_pos hpos]
    rfl

end Counts

/-! ### The kinds of a census -/

theorem Program.counts_census (u : Program) :
    u.census.counts = Counts.tallies (Node.kinds (Stmt.walkList u)) [] := by
  rw [census_eq]
  rfl

theorem Node.countP_kinds (q : NodeKind → Bool) (ns : List Node) :
    (kinds ns).countP q =
      (stmts ns).countP (fun s => q (.stmt s.kind)) + (exprs ns).countP fun e => q (.expr e.kind) := by
  induction ns with
  | nil => rfl
  | cons n ns ih =>
    cases n with
    | stmt s =>
      simp only [kinds_stmt_cons, stmts_stmt_cons, exprs_stmt_cons, List.countP_cons, ih]
      omega
    | body ss l => exact ih
    | expr e =>
      simp only [kinds_expr_cons, stmts_expr_cons, exprs_expr_cons, List.countP_cons, ih]
      omega

/-- The sum of the counts of any kinds is the number of nodes of these kinds that the queries see. -/
theorem Program.sumOf_counts_census (q : NodeKind → Bool) (u : Program) :
    u.census.counts.sumOf q =
      countStmts (fun s => q (.stmt s.kind)) u + countExprs (fun e => q (.expr e.kind)) u := by
  rw [counts_census, Counts.sumOf_tallies, Node.countP_kinds, Stmt.stmts_walkList, Stmt.exprs_walkList,
    ← countStmts_eq, ← countExprs_eq]
  exact Nat.zero_add _

/-- The number of nodes of a kind that the queries see. -/
def Program.seen (u : Program) : NodeKind → Nat
  | .stmt k => countStmts (·.kind == k) u
  | .expr k => countExprs (·.kind == k) u

theorem Program.seen_eq_sumOf (u : Program) (k : NodeKind) :
    u.seen k = u.census.counts.sumOf (· == k) := by
  rw [sumOf_counts_census, countStmts_eq, countExprs_eq]
  cases k with
  | stmt k =>
    have hstmt (s : Stmt) : (NodeKind.stmt s.kind == .stmt k) = (s.kind == k) := by
      rw [Bool.eq_iff_iff, beq_iff_eq, beq_iff_eq, NodeKind.stmt.injEq]
    have hexpr (e : Expr) : (NodeKind.expr e.kind == .stmt k) = false := rfl
    simp [seen, countStmts_eq, hstmt, hexpr]
  | expr k =>
    have hstmt (s : Stmt) : (NodeKind.stmt s.kind == .expr k) = false := rfl
    have hexpr (e : Expr) : (NodeKind.expr e.kind == .expr k) = (e.kind == k) := by
      rw [Bool.eq_iff_iff, beq_iff_eq, beq_iff_eq, NodeKind.expr.injEq]
    simp [seen, countExprs_eq, hstmt, hexpr]

/-- The census counts, kind by kind, the nodes that the queries see; a kind has an entry if and only if
there are such nodes; and the totals are the numbers of all statements, all expressions and all nodes. -/
theorem Program.census_agrees_with_queries (u : Program) :
    (∀ k, u.census.count k = u.seen k) ∧
    (∀ k n, (k, n) ∈ u.census.counts ↔ n = u.seen k ∧ 0 < n) ∧
    u.census.statements = countStmts (fun _ => true) u ∧
    u.census.expressions = countExprs (fun _ => true) u ∧
    u.census.total = countStmts (fun _ => true) u + countExprs (fun _ => true) u := by
  have hproper : Counts.IsProper u.census.counts := by
    rw [counts_census]
    exact .tallies ⟨.nil, fun e he => absurd he List.not_mem_nil⟩ _
  have hnone : countStmts (fun _ => false) u = 0 ∧ countExprs (fun _ => false) u = 0 := by
    simp [countStmts_eq, countExprs_eq]
  refine ⟨?_, ?_, ?_, ?_, ?_⟩
  · intro k
    rw [seen_eq_sumOf, ← hproper.count_eq k]
    rfl
  · intro k n
    rw [seen_eq_sumOf, hproper.mem_iff]
  · have hsum := sumOf_counts_census NodeKind.isStmt u
    simp only [NodeKind.isStmt, hnone.2, Nat.add_zero] at hsum
    exact hsum
  · have hsum := sumOf_counts_census (fun k => !k.isStmt) u
    simp only [NodeKind.isStmt, Bool.not_true, Bool.not_false, hnone.1, Nat.zero_add] at hsum
    exact hsum
  · have hsum := sumOf_counts_census (fun _ => true) u
    simp only [Counts.sumOf, List.filter_true] at hsum
    exact hsum

end TreeWalk
