import Mathlib.Data.Set.Card
import TreeWalk.Proofs.Scoping.Effect

/-! Scopes as the history of their changes. A push and a later pop match where the calls between them close
all that they open and nothing else; a push that no pop matches has its scope still open. The scopes hold
no history, but they answer as the history says: a look-up gives the value of the earliest declaration in
the innermost open scope that declares the name, a declaration is refused if an earlier one was made in the
same scope, and closing a scope gives its bindings and the state from before its push. -/

namespace TreeWalk.Scopes

variable {α : Type}

/-! ### Histories -/

/-- A change of scopes. -/
inductive Call (α : Type) where
  | push
  | pop
  | declare (name : String) (value : α)
deriving DecidableEq, Repr

def Call.apply (s : Scopes α) : Call α → Scopes α
  | .push => s.push
  | .pop => s.pop.2
  | .declare x a => (s.declare x a).2

/-- The scopes after calls, the first of which finds nothing but an empty outermost scope. -/
def after (calls : List (Call α)) : Scopes α := calls.foldl Call.apply {}

theorem after_append (calls more : List (Call α)) :
    after (calls ++ more) = more.foldl Call.apply (after calls) := List.foldl_append

theorem after_concat (calls : List (Call α)) (c : Call α) : after (calls ++ [c]) = c.apply (after calls) :=
  after_append calls [c]

/-- Calls that close every scope they open, and no other. -/
inductive Balanced : List (Call α) → Prop where
  | nil : Balanced []
  | declare {x a rest} (hrest : Balanced rest) : Balanced (.declare x a :: rest)
  | block {inner rest} (hinner : Balanced inner) (hrest : Balanced rest) :
      Balanced (.push :: (inner ++ .pop :: rest))

/-- The pop with index `j` closes the scope that the push with index `i` opens. -/
structure Matches (calls : List (Call α)) (i j : Nat) : Prop where
  push : calls[i]? = some .push
  pop : calls[j]? = some .pop
  lt : i < j
  between : Balanced ((calls.take j).drop (i + 1))

/-- The call with index `i` is a push, and no pop closes its scope. -/
def Unmatched (calls : List (Call α)) (i : Nat) : Prop :=
  calls[i]? = some .push ∧ ∀ j, ¬ Matches calls i j

/-- The scopes that are open after calls. A scope is named by the number of calls up to the push that opens
it, so that of two open scopes the inner one has the greater name; the outermost scope has the name zero. -/
def IsOpen (calls : List (Call α)) : Nat → Prop
  | 0 => True
  | i + 1 => Unmatched calls i

abbrev IsInnermost (calls : List (Call α)) (scope : Nat) : Prop := IsGreatest {n | IsOpen calls n} scope

/-- The call with index `j` declares `x` to be `a` while `scope` is the innermost open scope. -/
def Declares (calls : List (Call α)) (scope j : Nat) (x : String) (a : α) : Prop :=
  calls[j]? = some (.declare x a) ∧ IsInnermost (calls.take j) scope

/-- The earliest declaration of `x` in a scope gives it the value `a`. -/
def FirstIn (calls : List (Call α)) (scope : Nat) (x : String) (a : α) : Prop :=
  ∃ j, Declares calls scope j x a ∧ ∀ k b, Declares calls scope k x b → j ≤ k

/-! ### Balanced calls -/

namespace Balanced

theorem append {cs ds : List (Call α)} (hc : Balanced cs) (hd : Balanced ds) : Balanced (cs ++ ds) := by
  induction hc with
  | nil => exact hd
  | declare _ ih => exact .declare ih
  | block hinner _ _ ih =>
    rw [List.cons_append, List.append_assoc, List.cons_append]
    exact .block hinner ih

end Balanced

/-- The pushes among calls less the pops. -/
def excess : List (Call α) → Int
  | [] => 0
  | .push :: cs => excess cs + 1
  | .pop :: cs => excess cs - 1
  | .declare _ _ :: cs => excess cs

theorem excess_append (cs ds : List (Call α)) : excess (cs ++ ds) = excess cs + excess ds := by
  induction cs with
  | nil => simp [excess]
  | cons c cs ih => cases c <;> simp only [List.cons_append, excess, ih] <;> omega

namespace Balanced

theorem excess_eq {cs : List (Call α)} (h : Balanced cs) : excess cs = 0 := by
  induction h with
  | nil => rfl
  | declare _ ih => exact ih
  | block _ _ ihinner ihrest =>
    simp only [excess, excess_append, ihinner, ihrest]
    omega

/-- Up to any call no more scopes are closed than were opened. -/
theorem excess_nonneg {cs : List (Call α)} (h : Balanced cs) :
    ∀ p q, p ++ q = cs → 0 ≤ excess p := by
  induction h with
  | nil =>
    intro p q hp
    rw [(List.append_eq_nil_iff.1 hp).1]
    rfl
  | declare _ ih =>
    intro p q hp
    cases p with
    | nil => rfl
    | cons c p =>
      obtain ⟨rfl, hrest⟩ := List.cons.inj hp
      exact ih p q hrest
  | block hinner _ ihinner ihrest =>
    intro p q hp
    cases p with
    | nil => rfl
    | cons c p =>
      obtain ⟨rfl, htail⟩ := List.cons.inj hp
      have hpush : excess (Call.push :: p) = excess p + 1 := rfl
      rw [hpush]
      rcases List.append_eq_append_iff.1 htail with ⟨t, hin, -⟩ | ⟨t, hp', ht⟩
      · have hin' := ihinner p t hin.symm
        omega
      · rw [hp', excess_append, hinner.excess_eq]
        cases t with
        | nil => simp [excess]
        | cons c t =>
          obtain ⟨rfl, hrest⟩ := List.cons.inj ht
          have hpop : excess (Call.pop :: t) = excess t - 1 := rfl
          have hnonneg := ihrest t q hrest.symm
          omega

end Balanced

/-! ### Matching -/

namespace Matches

variable {calls more : List (Call α)} {i j : Nat}

theorem append (h : Matches calls i j) (more : List (Call α)) : Matches (calls ++ more) i j := by
  have hi := (List.getElem?_eq_some_iff.1 h.push).1
  have hj := (List.getElem?_eq_some_iff.1 h.pop).1
  refine ⟨?_, ?_, h.lt, ?_⟩
  · rw [List.getElem?_append_left hi, h.push]
  · rw [List.getElem?_append_left hj, h.pop]
  · rw [List.take_append_of_le_length hj.le]
    exact h.between

theorem shift (h : Matches calls i j) (before : List (Call α)) :
    Matches (before ++ calls) (before.length + i) (before.length + j) := by
  refine ⟨?_, ?_, ?_, ?_⟩
  · rw [List.getElem?_append_right (Nat.le_add_right ..), Nat.add_sub_cancel_left, h.push]
  · rw [List.getElem?_append_right (Nat.le_add_right ..), Nat.add_sub_cancel_left, h.pop]
  · have hlt := h.lt
    omega
  · have hdrop : ((before ++ calls).take (before.length + j)).drop (before.length + i + 1) =
        (calls.take j).drop (i + 1) := by
      rw [List.take_length_add_append, Nat.add_assoc, List.drop_length_add_append]
    rw [hdrop]
    exact h.between

/-- Balanced calls close no scope that was opened before them. -/
theorem lt_length (h : Matches (calls ++ more) i j) (hmore : Balanced more) (hi : i < calls.length) :
    j < calls.length := by
  by_contra hj
  obtain ⟨k, rfl⟩ := Nat.exists_eq_add_of_le (Nat.le_of_not_lt hj)
  have hpop : more[k]? = some .pop := by
    have hp := h.pop
    rwa [List.getElem?_append_right (Nat.le_add_right ..), Nat.add_sub_cancel_left] at hp
  have hbetween : Balanced (calls.drop (i + 1) ++ more.take k) := by
    have hb := h.between
    rwa [List.take_length_add_append, List.drop_append_of_le_length hi] at hb
  -- What comes before the pop opens more scopes than it closes, and so does the part of it in `calls`.
  have hopened := hmore.excess_nonneg (more.take k ++ [.pop]) (more.drop (k + 1)) (by
    have htake : more.take (k + 1) = more.take k ++ [.pop] := by rw [List.take_add_one, hpop]; rfl
    rw [← htake, List.take_append_drop])
  have hearlier := hbetween.excess_nonneg _ _ rfl
  have htotal := hbetween.excess_eq
  rw [excess_append] at hopened htotal
  have hone : excess [(Call.pop : Call α)] = -1 := rfl
  omega

end Matches

/-- Balanced calls close every scope that they open. -/
theorem Balanced.exists_matches {cs : List (Call α)} (h : Balanced cs) :
    ∀ i, cs[i]? = some .push → ∃ j, Matches cs i j := by
  induction h with
  | nil => simp
  | @declare x a rest _ ih =>
    intro i hi
    cases i with
    | zero => simp at hi
    | succ i =>
      obtain ⟨j, hj⟩ := ih i hi
      have hshift := hj.shift [.declare x a]
      rw [Nat.add_comm _ i] at hshift
      exact ⟨_, hshift⟩
  | @block inner rest hinner hrest ihinner ihrest =>
    intro i hi
    have hblock : Call.push :: (inner ++ .pop :: rest) = [.push] ++ (inner ++ .pop :: rest) := rfl
    have hafter : Call.push :: (inner ++ .pop :: rest) = (.push :: (inner ++ [.pop])) ++ rest := by simp
    rcases Nat.lt_or_ge i (inner.length + 2) with hlt | hge
    · cases i with
      | zero => exact ⟨inner.length + 1, rfl, by simp, by omega, by simpa using hinner⟩
      | succ i =>
        rcases Nat.lt_or_ge i inner.length with hin | hout
        · obtain ⟨j, hj⟩ := ihinner i (by
            rwa [List.getElem?_cons_succ, List.getElem?_append_left hin] at hi)
          have hshift := (hj.append (.pop :: rest)).shift [.push]
          rw [← hblock, Nat.add_comm _ i] at hshift
          exact ⟨_, hshift⟩
        · obtain rfl : i = inner.length := by omega
          simp at hi
    · obtain ⟨k, rfl⟩ := Nat.exists_eq_add_of_le hge
      have hlength : (Call.push :: (inner ++ [.pop])).length = inner.length + 2 := by simp
      obtain ⟨j, hj⟩ := ihrest k (by
        rwa [hafter, List.getElem?_append_right (by omega), hlength, Nat.add_sub_cancel_left] at hi)
      have hshift := hj.shift (.push :: (inner ++ [.pop]))
      rw [← hafter, hlength] at hshift
      exact ⟨_, hshift⟩

section Unmatched

variable {calls cs : List (Call α)} {i : Nat}

theorem Unmatched.lt_length (h : Unmatched calls i) : i < calls.length :=
  (List.getElem?_eq_some_iff.1 h.1).1

/-- Later calls open no scope again. -/
theorem Unmatched.of_append {more : List (Call α)} (h : Unmatched (calls ++ more) i)
    (hi : i < calls.length) : Unmatched calls i := by
  refine ⟨?_, fun j hj => h.2 j (hj.append more)⟩
  rw [← List.getElem?_append_left hi]
  exact h.1

theorem Unmatched.append (h : Unmatched calls i) {more : List (Call α)}
    (hmore : ∀ j, Matches (calls ++ more) i j → j < calls.length) : Unmatched (calls ++ more) i := by
  have hi := h.lt_length
  refine ⟨?_, fun j hj => ?_⟩
  · rw [List.getElem?_append_left hi]
    exact h.1
  · have hlt := hmore j hj
    refine h.2 j ⟨h.1, ?_, hj.lt, ?_⟩
    · rw [← List.getElem?_append_left hlt]
      exact hj.pop
    · have hbetween := hj.between
      rwa [List.take_append_of_le_length hlt.le] at hbetween

theorem unmatched_append_iff (hcs : Balanced cs) : Unmatched (calls ++ cs) i ↔ Unmatched calls i := by
  refine ⟨fun h => ?_, fun h => h.append fun j hj => hj.lt_length hcs h.lt_length⟩
  rcases Nat.lt_or_ge i calls.length with hi | hi
  · exact h.of_append hi
  · obtain ⟨k, rfl⟩ := Nat.exists_eq_add_of_le hi
    have hpush := h.1
    rw [List.getElem?_append_right hi, Nat.add_sub_cancel_left] at hpush
    obtain ⟨j, hj⟩ := hcs.exists_matches k hpush
    exact absurd (hj.shift calls) (h.2 _)

theorem unmatched_push_iff : Unmatched (calls ++ [.push]) i ↔ Unmatched calls i ∨ i = calls.length := by
  have hpops (j : Nat) (hj : Matches (calls ++ [.push]) i j) : j < calls.length := by
    have hpop := hj.pop
    rw [List.getElem?_append] at hpop
    split at hpop
    · assumption
    · simp [List.getElem?_singleton] at hpop
  constructor
  · intro h
    have hi := h.lt_length
    rw [List.length_append, List.length_singleton] at hi
    rcases Nat.lt_or_ge i calls.length with hlt | hge
    · exact .inl (h.of_append hlt)
    · exact .inr (by omega)
  · rintro (h | rfl)
    · exact h.append hpops
    · refine ⟨by simp, fun j hj => ?_⟩
      have hlt := hj.lt
      have hj' := hpops j hj
      omega

theorem Unmatched.of_pop (h : Unmatched (calls ++ [.pop]) i) : Unmatched calls i := by
  refine h.of_append (Nat.lt_of_not_ge fun hge => ?_)
  have hpush := h.1
  rw [List.getElem?_append_right hge, List.getElem?_singleton] at hpush
  simp at hpush

end Unmatched

/-! ### The open scopes -/

/-- The names of the open scopes, the innermost first. -/
inductive Layers : List (Call α) → List Nat → Prop where
  | start : Layers [] [0]
  | balanced {calls names cs} (h : Layers calls names) (hcs : Balanced cs) : Layers (calls ++ cs) names
  | push {calls names} (h : Layers calls names) : Layers (calls ++ [.push]) ((calls.length + 1) :: names)
  | missed {calls} (h : Layers calls [0]) : Layers (calls ++ [.pop]) [0]

namespace Layers

variable {calls : List (Call α)} {names : List Nat}

theorem mem_iff (h : Layers calls names) : ∀ n, n ∈ names ↔ IsOpen calls n := by
  induction h with
  | start =>
    intro n
    cases n with
    | zero => simp [IsOpen]
    | succ i => simp [IsOpen, Unmatched]
  | balanced _ hcs ih =>
    intro n
    cases n with
    | zero => exact ih 0
    | succ i => exact (ih (i + 1)).trans (unmatched_append_iff hcs).symm
  | push _ ih =>
    intro n
    cases n with
    | zero => simpa [IsOpen] using ih 0
    | succ i =>
      rw [List.mem_cons, ih, IsOpen, IsOpen, unmatched_push_iff, Nat.succ_inj, or_comm]
  | @missed calls _ ih =>
    intro n
    cases n with
    | zero => simp [IsOpen]
    | succ i =>
      have hnone : ¬ Unmatched calls i := fun hi => by simpa using (ih (i + 1)).2 hi
      simp only [List.mem_singleton, Nat.succ_ne_zero, false_iff]
      exact fun hi => hnone (Unmatched.of_pop hi)

theorem sorted (h : Layers calls names) : names.Pairwise (· > ·) ∧ ∀ n ∈ names, n ≤ calls.length := by
  induction h with
  | start => simp
  | balanced _ _ ih =>
    refine ⟨ih.1, fun n hn => ?_⟩
    rw [List.length_append]
    exact (ih.2 n hn).trans (Nat.le_add_right ..)
  | push _ ih =>
    refine ⟨List.pairwise_cons.2 ⟨fun n hn => Nat.lt_succ_of_le (ih.2 n hn), ih.1⟩, ?_⟩
    rintro n (_ | ⟨_, hn⟩)
    · simp
    · exact (ih.2 n hn).trans (by simp)
  | missed => simp

theorem isInnermost {n : Nat} (h : Layers calls (n :: names)) : IsInnermost calls n := by
  refine ⟨(h.mem_iff n).1 List.mem_cons_self, fun m hm => ?_⟩
  rcases List.mem_cons.1 ((h.mem_iff m).2 hm) with rfl | hmem
  · exact le_rfl
  · exact ((List.pairwise_cons.1 h.sorted.1).1 m hmem).le

/-- An open scope within another was opened by a push after which all calls are balanced. -/
theorem split {n m : Nat} (h : Layers calls (n :: m :: names)) :
    ∃ before inner, calls = before ++ .push :: inner ∧ n = before.length + 1 ∧
      Layers before (m :: names) ∧ Balanced inner := by
  generalize hall : n :: m :: names = all at h
  induction h with
  | start => simp at hall
  | @balanced calls all cs _ hcs ih =>
    obtain ⟨before, inner, rfl, hn, hlayers, hinner⟩ := ih hall
    exact ⟨before, inner ++ cs, by simp, hn, hlayers, hinner.append hcs⟩
  | @push calls all h ih =>
    obtain ⟨hn, rfl⟩ := List.cons.inj hall
    exact ⟨calls, [], rfl, hn, h, .nil⟩
  | missed => simp at hall

/-- A pop closes the innermost scope if there is another one. -/
theorem pop {n m : Nat} (h : Layers calls (n :: m :: names)) : Layers (calls ++ [.pop]) (m :: names) := by
  obtain ⟨before, inner, rfl, -, hlayers, hinner⟩ := h.split
  rw [List.append_assoc]
  exact hlayers.balanced (.block hinner .nil)

end Layers

/-! ### Declarations -/

section Declares

variable {calls : List (Call α)} {scope j : Nat} {x : String} {a : α}

theorem Declares.lt_length (h : Declares calls scope j x a) : j < calls.length :=
  (List.getElem?_eq_some_iff.1 h.1).1

theorem declares_concat (c : Call α) : Declares (calls ++ [c]) scope j x a ↔
    Declares calls scope j x a ∨
      (j = calls.length ∧ c = .declare x a ∧ IsInnermost calls scope) := by
  rcases Nat.lt_trichotomy j calls.length with hlt | rfl | hgt
  · rw [Declares, Declares, List.getElem?_append_left hlt, List.take_append_of_le_length hlt.le]
    simp [hlt.ne]
  · simp [Declares]
  · have hnone : (calls ++ [c])[j]? = none := by simpa using hgt
    have hnone' : calls[j]? = none := by simpa using hgt.le
    simp [Declares, hnone, hnone', hgt.ne']

/-- A name declared in a scope has an earliest declaration there. -/
theorem Declares.exists_firstIn (h : Declares calls scope j x a) : ∃ b, FirstIn calls scope x b := by
  classical
  have hex : ∃ k b, Declares calls scope k x b := ⟨j, a, h⟩
  obtain ⟨b, hb⟩ := Nat.find_spec hex
  exact ⟨b, Nat.find hex, hb, fun k d hd => Nat.find_min' hex ⟨d, hd⟩⟩

/-- A call adds at most one earliest declaration: that of a name which its scope did not declare before. -/
theorem firstIn_concat (c : Call α) : FirstIn (calls ++ [c]) scope x a ↔
    FirstIn calls scope x a ∨
      (c = .declare x a ∧ IsInnermost calls scope ∧ ∀ k b, ¬ Declares calls scope k x b) := by
  constructor
  · rintro ⟨j, hj, hleast⟩
    rcases (declares_concat c).1 hj with hold | ⟨rfl, hc, hscope⟩
    · exact .inl ⟨j, hold, fun k b hk => hleast k b ((declares_concat c).2 (.inl hk))⟩
    · refine .inr ⟨hc, hscope, fun k b hk => ?_⟩
      have hle := hleast k b ((declares_concat c).2 (.inl hk))
      have hlt := hk.lt_length
      omega
  · rintro (⟨j, hj, hleast⟩ | ⟨hc, hscope, hnone⟩)
    · refine ⟨j, (declares_concat c).2 (.inl hj), fun k b hk => ?_⟩
      rcases (declares_concat c).1 hk with hold | ⟨rfl, -, -⟩
      · exact hleast k b hold
      · exact hj.lt_length.le
    · refine ⟨calls.length, (declares_concat c).2 (.inr ⟨rfl, hc, hscope⟩), fun k b hk => ?_⟩
      rcases (declares_concat c).1 hk with hold | ⟨rfl, -, -⟩
      · exact absurd hold (hnone k b)
      · exact le_rfl

end Declares

/-- The bindings are those that the earliest declarations in the scope make. -/
structure Holds (calls : List (Call α)) (scope : Nat) (bindings : Scope α) : Prop where
  nodup : (bindings.map Prod.fst).Nodup
  mem : ∀ x a, (x, a) ∈ bindings ↔ FirstIn calls scope x a

/-- Where no name is bound twice, a name is looked up to be what it is bound to. -/
theorem lookup_eq_some_iff_mem {bindings : Scope α} (h : (bindings.map Prod.fst).Nodup) (x : String)
    (a : α) : bindings.lookup x = some a ↔ (x, a) ∈ bindings := by
  induction bindings with
  | nil => simp
  | cons b rest ih =>
    obtain ⟨y, d⟩ := b
    obtain ⟨hy, hrest⟩ := List.nodup_cons.1 h
    by_cases hxy : x = y
    · subst hxy
      have hnot : (x, a) ∉ rest := fun hmem => hy (List.mem_map.2 ⟨(x, a), hmem, rfl⟩)
      simp [hnot, eq_comm]
    · have hne : (x == y) = false := beq_false_of_ne hxy
      simp [List.lookup_cons, hne, hxy, ih hrest]

namespace Holds

variable {calls : List (Call α)} {bindings : Scope α} {scope : Nat}

theorem lookup_eq_some (h : Holds calls scope bindings) (x : String) (a : α) :
    bindings.lookup x = some a ↔ FirstIn calls scope x a :=
  (lookup_eq_some_iff_mem h.nodup x a).trans (h.mem x a)

theorem lookup_eq_none (h : Holds calls scope bindings) (x : String) :
    bindings.lookup x = none ↔ ∀ j a, ¬ Declares calls scope j x a := by
  constructor
  · intro hnone j a hj
    obtain ⟨b, hb⟩ := hj.exists_firstIn
    rw [(h.lookup_eq_some x b).2 hb] at hnone
    simp at hnone
  · intro hnone
    cases hx : bindings.lookup x with
    | none => rfl
    | some a =>
      obtain ⟨j, hj, -⟩ := (h.lookup_eq_some x a).1 hx
      exact absurd hj (hnone j a)

/-- A call that does not declare anything in the scope leaves its bindings. -/
theorem concat (h : Holds calls scope bindings) {c : Call α}
    (hc : ∀ x a, c = .declare x a → IsInnermost calls scope →
      ∃ j b, Declares calls scope j x b) : Holds (calls ++ [c]) scope bindings := by
  refine ⟨h.nodup, fun x a => (h.mem x a).trans ?_⟩
  rw [firstIn_concat]
  refine ⟨.inl, ?_⟩
  rintro (hfirst | ⟨rfl, hscope, hnone⟩)
  · exact hfirst
  · obtain ⟨j, b, hj⟩ := hc x a rfl hscope
    exact absurd hj (hnone j b)

/-- A name that the innermost scope does not bind is bound by its declaration. -/
theorem declare (h : Holds calls scope bindings) (hscope : IsInnermost calls scope)
    {x : String} (hx : bindings.lookup x = none) (a : α) :
    Holds (calls ++ [.declare x a]) scope ((x, a) :: bindings) := by
  have hnone := (h.lookup_eq_none x).1 hx
  refine ⟨?_, fun y b => ?_⟩
  · refine List.nodup_cons.2 ⟨fun hmem => ?_, h.nodup⟩
    obtain ⟨⟨y, b⟩, hb, rfl⟩ := List.mem_map.1 hmem
    rw [(lookup_eq_some_iff_mem h.nodup y b).2 hb] at hx
    simp at hx
  · rw [firstIn_concat, List.mem_cons, h.mem, or_comm]
    refine or_congr_right ?_
    constructor
    · rintro ⟨⟩
      exact ⟨rfl, hscope, hnone⟩
    · rintro ⟨⟨⟩, -, -⟩
      rfl

end Holds

/-! ### Runs -/

/-- Balanced calls change no scope but the innermost. -/
theorem enclosing_balanced {cs : List (Call α)} (h : Balanced cs) (s : Scopes α) :
    (cs.foldl Call.apply s).enclosing = s.enclosing := by
  induction h generalizing s with
  | nil => rfl
  | @declare x a rest _ ih => exact (ih (s.declare x a).2).trans (enclosing_declare s x a)
  | @block inner rest _ _ ihinner ihrest =>
    have hclosed : (inner.foldl Call.apply s.push).pop.2 = s := pop_of_enclosing (ihinner s.push)
    have hrest := ihrest (inner.foldl Call.apply s.push).pop.2
    rw [hclosed] at hrest
    rw [List.foldl_cons, List.foldl_append, List.foldl_cons]
    exact (congrArg (fun t => (rest.foldl Call.apply t).enclosing) hclosed).trans hrest

/-- The open scopes hold the bindings that the history says. -/
structure Tracks (calls : List (Call α)) (names : List Nat) : Prop where
  layers : Layers calls names
  scopes : List.Forall₂ (Holds calls) names (after calls).toList

theorem tracks_nil : Tracks ([] : List (Call α)) [0] := by
  refine ⟨.start, .cons ⟨List.nodup_nil, fun x a => ?_⟩ .nil⟩
  simp [FirstIn, Declares, after]

namespace Tracks

variable {calls : List (Call α)} {names : List Nat}

theorem push (h : Tracks calls names) : Tracks (calls ++ [.push]) ((calls.length + 1) :: names) := by
  have hnew : Holds (calls ++ [.push]) (calls.length + 1) [] := by
    refine ⟨List.nodup_nil, fun x a => ⟨fun hmem => absurd hmem List.not_mem_nil, ?_⟩⟩
    -- The new scope was not open before, so nothing is declared in it.
    rintro ⟨j, hj, -⟩
    rcases (declares_concat .push).1 hj with hold | ⟨-, hc, -⟩
    · have hopen : Unmatched (calls.take j) calls.length := hold.2.1
      have hlt := hopen.lt_length
      rw [List.length_take] at hlt
      omega
    · simp at hc
  refine ⟨h.layers.push, ?_⟩
  rw [after_concat]
  exact .cons hnew (h.scopes.imp fun _ _ hold => hold.concat (by simp))

/-- The outermost scope alone is open, or another one within it. -/
theorem names_cases (h : Tracks calls names) :
    (names = [0] ∧ (after calls).enclosing = []) ∨
      ∃ n m rest, names = n :: m :: rest ∧ (after calls).enclosing ≠ [] := by
  have hzero : 0 ∈ names := (h.layers.mem_iff 0).2 trivial
  have hlength := h.scopes.length_eq
  rw [toList, List.length_cons] at hlength
  rcases names with _ | ⟨n, _ | ⟨m, rest⟩⟩
  · simp at hzero
  · rw [← List.mem_singleton.1 hzero]
    exact .inl ⟨rfl, List.length_eq_zero_iff.1 (by simpa using hlength.symm)⟩
  · refine .inr ⟨n, m, rest, rfl, fun hnil => ?_⟩
    simp [hnil] at hlength

theorem pop (h : Tracks calls names) :
    ∃ names', Tracks (calls ++ [.pop]) names' := by
  have hscopes : List.Forall₂ (Holds (calls ++ [.pop])) names (after calls).toList :=
    h.scopes.imp fun _ _ hold => hold.concat (by simp)
  rcases h.names_cases with ⟨rfl, hnil⟩ | ⟨n, m, rest, rfl, hne⟩
  · refine ⟨[0], h.layers.missed, ?_⟩
    have hpop : (after calls).pop.2 = after calls := by simp [Scopes.pop, hnil]
    rw [after_concat, Call.apply, hpop]
    exact hscopes
  · obtain ⟨outer, more, henclosing⟩ := List.exists_cons_of_ne_nil hne
    have hpop : (after calls).pop.2 = ⟨outer, more⟩ := by simp [Scopes.pop, henclosing]
    refine ⟨m :: rest, h.layers.pop, ?_⟩
    rw [after_concat, Call.apply, hpop]
    rw [toList, henclosing] at hscopes
    exact (List.forall₂_cons.1 hscopes).2

theorem declare (h : Tracks calls names) (x : String) (a : α) : Tracks (calls ++ [.declare x a]) names := by
  refine ⟨h.layers.balanced (.declare .nil), ?_⟩
  obtain _ | ⟨n, rest⟩ := names
  · exact absurd h.scopes.length_eq (by simp [toList])
  obtain ⟨hinner, hrest⟩ := List.forall₂_cons.1 h.scopes
  have hinnermost := h.layers.isInnermost
  -- The scopes around the innermost one get no binding.
  have houter : List.Forall₂ (Holds (calls ++ [.declare x a])) rest (after calls).enclosing := by
    have hlt := (List.pairwise_cons.1 h.layers.sorted.1).1
    refine ((List.forall₂_and_left _ _).2 ⟨hlt, hrest⟩).imp fun m bindings hm => hm.2.concat ?_
    exact fun _ _ _ hm' => absurd (hm'.unique hinnermost) hm.1.ne
  rw [after_concat, toList, Call.apply, enclosing_declare]
  refine .cons ?_ houter
  cases hx : (after calls).innermost.lookup x with
  | none =>
    have hbound : ((after calls).declare x a).2.innermost = (x, a) :: (after calls).innermost := by
      simp [Scopes.declare, hx]
    rw [hbound]
    exact hinner.declare hinnermost hx a
  | some first =>
    have hkept : ((after calls).declare x a).2.innermost = (after calls).innermost := by
      simp [Scopes.declare, hx]
    rw [hkept]
    refine hinner.concat fun y b hy _ => ?_
    obtain ⟨rfl, rfl⟩ := Call.declare.inj hy
    obtain ⟨j, hj, -⟩ := (hinner.lookup_eq_some x first).1 hx
    exact ⟨j, first, hj⟩

end Tracks

theorem exists_tracks (calls : List (Call α)) : ∃ names, Tracks calls names := by
  induction calls using List.reverseRecOn with
  | nil => exact ⟨[0], tracks_nil⟩
  | append_singleton calls c ih =>
    obtain ⟨names, h⟩ := ih
    cases c with
    | push => exact ⟨_, h.push⟩
    | pop => exact h.pop
    | declare x a => exact ⟨names, h.declare x a⟩

/-! ### Answers -/

section Lookup

variable {calls : List (Call α)} {names : List Nat} {scopes : List (Scope α)}

/-- The first scope with a binding of the name is the innermost one with a declaration of it. -/
theorem findSome?_eq_some (h : List.Forall₂ (Holds calls) names scopes) (hsorted : names.Pairwise (· > ·))
    (x : String) (a : α) :
    scopes.findSome? (·.lookup x) = some a ↔ ∃ n, n ∈ names ∧ FirstIn calls n x a ∧
      ∀ m j b, m ∈ names → Declares calls m j x b → m ≤ n := by
  induction h with
  | nil => simp
  | @cons n bindings names scopes hn _ ih =>
    obtain ⟨hlt, hrest⟩ := List.pairwise_cons.1 hsorted
    rw [List.findSome?_cons]
    cases hx : bindings.lookup x with
    | none =>
      have hnone := (hn.lookup_eq_none x).1 hx
      simp only [ih hrest]
      constructor
      · rintro ⟨k, hk, hfirst, hmax⟩
        refine ⟨k, List.mem_cons_of_mem n hk, hfirst, fun m j b hm hj => ?_⟩
        rcases List.mem_cons.1 hm with rfl | hm
        · exact absurd hj (hnone j b)
        · exact hmax m j b hm hj
      · rintro ⟨k, hk, hfirst, hmax⟩
        rcases List.mem_cons.1 hk with rfl | hk
        · obtain ⟨j, hj, -⟩ := hfirst
          exact absurd hj (hnone j a)
        · exact ⟨k, hk, hfirst, fun m j b hm => hmax m j b (List.mem_cons_of_mem n hm)⟩
    | some b =>
      have hb := (hn.lookup_eq_some x b).1 hx
      simp only [Option.some.injEq]
      constructor
      · rintro rfl
        refine ⟨n, List.mem_cons_self, hb, fun m _ _ hm _ => ?_⟩
        rcases List.mem_cons.1 hm with rfl | hm
        · exact le_rfl
        · exact (hlt m hm).le
      · rintro ⟨k, hk, hfirst, hmax⟩
        -- The name is declared in the first scope, so no other one comes before.
        obtain ⟨j, hj, -⟩ := hb
        have hle := hmax n j b List.mem_cons_self hj
        rcases List.mem_cons.1 hk with rfl | hk
        · rw [(hn.lookup_eq_some x a).2 hfirst] at hx
          exact (Option.some.inj hx).symm
        · exact absurd (hlt k hk) (Nat.not_lt.2 hle)

theorem findSome?_eq_none (h : List.Forall₂ (Holds calls) names scopes) (x : String) :
    scopes.findSome? (·.lookup x) = none ↔ ∀ n ∈ names, ∀ j a, ¬ Declares calls n j x a := by
  rw [List.findSome?_eq_none_iff]
  induction h with
  | nil => simp
  | cons hn _ ih => rw [List.forall_mem_cons, List.forall_mem_cons, hn.lookup_eq_none, ih]

end Lookup

theorem ncard_unmatched {calls : List (Call α)} {names : List Nat} (h : Layers calls names) :
    names.length = 1 + {i | Unmatched calls i}.ncard := by
  have hnames : (names.toFinset : Set Nat) = insert 0 ((· + 1) '' {i | Unmatched calls i}) := by
    ext n
    rw [List.coe_toFinset, Set.mem_ofPred_eq, h.mem_iff]
    cases n with
    | zero => simp [IsOpen]
    | succ i => simp [IsOpen]
  have hfinite : {i | Unmatched calls i}.Finite :=
    (Set.finite_lt_nat calls.length).subset fun i hi => hi.lt_length
  have hnodup : names.Nodup := h.sorted.1.imp fun hlt => hlt.ne'
  rw [← List.toFinset_card_of_nodup hnodup, ← Set.ncard_coe_finset, hnames,
    Set.ncard_insert_of_notMem (by simp) (hfinite.image _),
    Set.ncard_image_of_injective _ Nat.succ_injective, Nat.add_comm]

/-- The scopes answer as a history of calls says. -/
structure Recounts (calls : List (Call α)) (s : Scopes α) : Prop where
  /-- There is one scope more than pushes that no pop matches, so one at least. -/
  depth : s.depth = 1 + {i | Unmatched calls i}.ncard
  /-- A name is what its earliest declaration says in the innermost open scope that declares it. -/
  found : ∀ x a, s.lookup x = some a ↔ ∃ n, IsOpen calls n ∧ FirstIn calls n x a ∧
    ∀ m j b, IsOpen calls m → Declares calls m j x b → m ≤ n
  missing : ∀ x, s.lookup x = none ↔ ∀ n j a, IsOpen calls n → ¬ Declares calls n j x a
  /-- A declaration is refused if and only if the innermost scope has one of the same name; the scopes then
  stay as they are and the value of the earliest one is given back. -/
  refused : ∃ n, IsInnermost calls n ∧ ∀ x a,
    ((∃ first, (s.declare x a).1 = .error first) ↔ ∃ j b, Declares calls n j x b) ∧
    ∀ first, (s.declare x a).1 = .error first → FirstIn calls n x first ∧ (s.declare x a).2 = s
  /-- The outermost scope alone cannot be closed. -/
  kept : s.depth = 1 → s.pop = (none, s)
  /-- Any other scope is closed with the bindings made in it, and all is as before its push. -/
  closed : s.depth ≠ 1 → ∃ i bindings, Matches (calls ++ [.pop]) i calls.length ∧
    s.pop = (some bindings, after (calls.take i)) ∧ (bindings.map Prod.fst).Nodup ∧
    ∀ x a, (x, a) ∈ bindings ↔ FirstIn calls (i + 1) x a

theorem Tracks.refused {calls : List (Call α)} {n : Nat} {names : List Nat} (h : Tracks calls (n :: names))
    (x : String) (a : α) :
    ((∃ first, ((after calls).declare x a).1 = .error first) ↔ ∃ j b, Declares calls n j x b) ∧
    ∀ first, ((after calls).declare x a).1 = .error first →
      FirstIn calls n x first ∧ ((after calls).declare x a).2 = after calls := by
  have hinner := (List.forall₂_cons.1 h.scopes).1
  cases hx : (after calls).innermost.lookup x with
  | none =>
    have hok : ((after calls).declare x a).1 = .ok () := by simp [Scopes.declare, hx]
    have hnone := (hinner.lookup_eq_none x).1 hx
    simp [hok, hnone]
  | some b =>
    have herror : (after calls).declare x a = (.error b, after calls) := by simp [Scopes.declare, hx]
    obtain ⟨j, hj, hfirst⟩ := (hinner.lookup_eq_some x b).1 hx
    rw [herror]
    refine ⟨iff_of_true ⟨b, rfl⟩ ⟨j, b, hj⟩, fun first heq => ?_⟩
    rw [← Except.error.inj heq]
    exact ⟨⟨j, hj, hfirst⟩, rfl⟩

theorem Tracks.closed {calls : List (Call α)} {n m : Nat} {names : List Nat}
    (h : Tracks calls (n :: m :: names)) :
    ∃ i bindings, Matches (calls ++ [.pop]) i calls.length ∧
      (after calls).pop = (some bindings, after (calls.take i)) ∧ (bindings.map Prod.fst).Nodup ∧
      ∀ x a, (x, a) ∈ bindings ↔ FirstIn calls (i + 1) x a := by
  have hinner := (List.forall₂_cons.1 h.scopes).1
  obtain ⟨before, inner, rfl, rfl, -, hbalanced⟩ := h.layers.split
  -- The calls since the push left the scopes around it alone.
  have henclosing : (after (before ++ .push :: inner)).enclosing = (after before).toList := by
    rw [after_append, List.foldl_cons, enclosing_balanced hbalanced]
    rfl
  refine ⟨before.length, _, ⟨?_, ?_, ?_, ?_⟩, ?_, hinner.nodup, hinner.mem⟩
  · simp
  · simp
  · simp
  · rw [List.take_left, List.drop_length_add_append]
    exact hbalanced
  · rw [List.take_left, Scopes.pop, henclosing]
    rfl

/-- After any calls the scopes answer as the history of the calls says. -/
theorem after_recounts (calls : List (Call α)) : Recounts calls (after calls) := by
  obtain ⟨names, h⟩ := exists_tracks calls
  have hdepth : (after calls).depth = names.length := h.scopes.length_eq.symm
  have hlookup (x : String) : (after calls).lookup x = (after calls).toList.findSome? (·.lookup x) := rfl
  refine {
    depth := hdepth.trans (ncard_unmatched h.layers)
    found := fun x a => ?_
    missing := fun x => ?_
    refused := ?_
    kept := fun h1 => ?_
    closed := fun h1 => ?_ }
  · simp only [hlookup, findSome?_eq_some h.scopes h.layers.sorted.1, h.layers.mem_iff]
  · simp only [hlookup, findSome?_eq_none h.scopes, h.layers.mem_iff]
    exact ⟨fun hnone n j a hn => hnone n hn j a, fun hnone n hn j a => hnone n j a hn⟩
  · rcases h.names_cases with ⟨rfl, -⟩ | ⟨n, m, rest, rfl, -⟩
    · exact ⟨0, h.layers.isInnermost, h.refused⟩
    · exact ⟨n, h.layers.isInnermost, h.refused⟩
  · rcases h.names_cases with ⟨rfl, hnil⟩ | ⟨n, m, rest, rfl, -⟩
    · simp [Scopes.pop, hnil]
    · simp [hdepth] at h1
  · rcases h.names_cases with ⟨rfl, -⟩ | ⟨n, m, rest, rfl, -⟩
    · simp [hdepth] at h1
    · exact h.closed

example :
    let calls : List (Call Nat) := [.declare "x" 1, .pop, .push, .declare "x" 2, .declare "x" 3]
    (after calls).lookup "x" = some 2 ∧
    (after calls).pop = (some [("x", 2)], after (calls.take 2)) ∧
    (after (calls ++ [.pop, .declare "x" 4])).lookup "x" = some 1 := by decide

end TreeWalk.Scopes
