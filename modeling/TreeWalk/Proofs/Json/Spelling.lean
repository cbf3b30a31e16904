import TreeWalk.Proofs.Json.Lexemes

/-! Spellings of values. A spelling of a value is a list of lexemes that denotes it: the members of an
object are kept in order, but strings and numbers may be written in several ways, and blanks may stand
before any lexeme. Readers go through the parts of an array or an object in a loop; what such loops do is
stated once, as a rule with an invariant. -/

namespace TreeWalk.Json

mutual

/-- How many brackets and braces of a value are open at once. -/
def depth : Json → Nat
  | .null | .bool _ | .integer _ | .double _ | .string _ => 0
  | .array items => itemsDepth items + 1
  | .object members => membersDepth members + 1

def itemsDepth : List Json → Nat
  | [] => 0
  | j :: js => max j.depth (itemsDepth js)

def membersDepth : List (String × Json) → Nat
  | [] => 0
  | (_, j) :: ms => max j.depth (membersDepth ms)

end

theorem itemsDepth_le_iff {js : List Json} {d : Nat} : itemsDepth js ≤ d ↔ ∀ j ∈ js, j.depth ≤ d := by
  induction js with
  | nil => simp [itemsDepth]
  | cons j js ih => rw [itemsDepth, Nat.max_le, ih, List.forall_mem_cons]

theorem membersDepth_eq (ms : List (String × Json)) : membersDepth ms = itemsDepth (ms.map (·.2)) := by
  induction ms with
  | nil => rfl
  | cons m ms ih => rw [membersDepth, ih, List.map_cons, itemsDepth]

theorem membersDepth_le_iff {ms : List (String × Json)} {d : Nat} :
    membersDepth ms ≤ d ↔ ∀ m ∈ ms, m.2.depth ≤ d := by
  rw [membersDepth_eq, itemsDepth_le_iff, List.forall_mem_map]

theorem depth_array_le {js : List Json} {d : Nat} (h : ∀ j ∈ js, j.depth ≤ d) : (array js).depth ≤ d + 1 := by
  rw [depth]
  exact Nat.succ_le_succ (itemsDepth_le_iff.2 h)

theorem depth_object_le {ms : List (String × Json)} {d : Nat} (h : ∀ m ∈ ms, m.2.depth ≤ d) :
    (object ms).depth ≤ d + 1 := by
  rw [depth]
  exact Nat.succ_le_succ (membersDepth_le_iff.2 h)

theorem depth_lt_array {j : Json} {js : List Json} (h : j ∈ js) : j.depth < (array js).depth := by
  rw [depth, Nat.lt_succ_iff]
  exact itemsDepth_le_iff.1 (Nat.le_refl _) j h

theorem depth_lt_object {m : String × Json} {ms : List (String × Json)} (h : m ∈ ms) :
    m.2.depth < (object ms).depth := by
  rw [depth, Nat.lt_succ_iff]
  exact membersDepth_le_iff.1 (Nat.le_refl _) m h

/-! ### Spellings -/

/-- A member of an object, with the lexemes of its key and of its value. -/
structure Member where
  key : String
  name : Lexeme
  value : Json
  body : List Lexeme

def Member.lexemes (m : Member) : List Lexeme := m.name :: [':'] :: m.body

def Member.entry (m : Member) : String × Json := (m.key, m.value)

/-- Parts between two marks, with commas between them. -/
def bracketed (opening closing : Char) (parts : List (List Lexeme)) : List Lexeme :=
  [opening] :: ([[',']].intercalate parts ++ [[closing]])

/-- The lexemes denote the value. -/
inductive Spelling : Json → List Lexeme → Prop where
  | scalar {j : Json} {l : Lexeme} (h : ScalarText j l) : Spelling j [l]
  | array {items : List (Json × List Lexeme)} (h : ∀ i ∈ items, Spelling i.1 i.2) :
      Spelling (.array (items.map (·.1))) (bracketed '[' ']' (items.map (·.2)))
  | object {members : List Member} (hn : ∀ m ∈ members, QuotedAs m.key m.name)
      (h : ∀ m ∈ members, Spelling m.value m.body) :
      Spelling (.object (members.map Member.entry)) (bracketed '\x7b' '\x7d' (members.map Member.lexemes))

theorem ScalarText.depth {j : Json} {l : Lexeme} (h : ScalarText j l) : j.depth = 0 := by
  cases h with
  | number _ hj => obtain ⟨n, rfl⟩ | ⟨x, rfl⟩ := NumberText.value?_eq_some hj <;> rfl
  | _ => rfl

theorem Spelling.of_string {s : String} {ls : List Lexeme} (h : Spelling (.string s) ls) :
    ∃ l, QuotedAs s l ∧ ls = [l] := by
  cases h with
  | scalar h =>
    cases h with
    | number _ hj => simpa using NumberText.value?_eq_some hj
    | string h => exact ⟨_, h, rfl⟩

theorem Spelling.of_array {js : List Json} {ls : List Lexeme} (h : Spelling (.array js) ls) :
    ∃ items : List (Json × List Lexeme), (∀ i ∈ items, Spelling i.1 i.2) ∧ js = items.map (·.1) ∧
      ls = bracketed '[' ']' (items.map (·.2)) := by
  cases h with
  | scalar h =>
    cases h with
    | number _ hj => simpa using NumberText.value?_eq_some hj
  | array h => exact ⟨_, h, rfl, rfl⟩

theorem Spelling.of_object {ms : List (String × Json)} {ls : List Lexeme} (h : Spelling (.object ms) ls) :
    ∃ members : List Member, (∀ m ∈ members, QuotedAs m.key m.name) ∧
      (∀ m ∈ members, Spelling m.value m.body) ∧ ms = members.map Member.entry ∧
      ls = bracketed '\x7b' '\x7d' (members.map Member.lexemes) := by
  cases h with
  | scalar h =>
    cases h with
    | number _ hj => simpa using NumberText.value?_eq_some hj
  | object hn h => exact ⟨_, hn, h, rfl, rfl⟩

/-! ### Parts and commas -/

/-- The text after a part: every further part after a comma, and the closing mark. -/
inductive Trail (closing : Char) : List (List Lexeme) → List Char → Prop where
  | closed {bs : List Char} (hb : IsBlanks bs) : Trail closing [] (bs ++ [closing])
  | comma {p : List Lexeme} {ps : List (List Lexeme)} {bs as cs : List Char} (hb : IsBlanks bs)
      (hp : Spaced p as) (h : Trail closing ps cs) : Trail closing (p :: ps) (bs ++ ',' :: (as ++ cs))

theorem Spaced.trail {closing : Char} {p : List Lexeme} {ps : List (List Lexeme)} {cs : List Char}
    (h : Spaced ([[',']].intercalate (p :: ps) ++ [[closing]]) cs) :
    ∃ as ds, Spaced p as ∧ Trail closing ps ds ∧ cs = as ++ ds := by
  induction ps generalizing p cs with
  | nil =>
    rw [List.intercalate_singleton] at h
    obtain ⟨as, ds, hp, hd, rfl⟩ := h.of_append
    obtain ⟨bs, es, hb, he, rfl⟩ := hd.of_cons
    cases he
    exact ⟨as, _, hp, .closed hb, by simp⟩
  | cons q ps ih =>
    rw [List.intercalate_cons_cons, List.append_assoc, List.append_assoc, List.singleton_append] at h
    obtain ⟨as, ds, hp, hd, rfl⟩ := h.of_append
    obtain ⟨bs, es, hb, he, rfl⟩ := hd.of_cons
    obtain ⟨fs, gs, hq, ht, rfl⟩ := ih he
    exact ⟨as, _, hp, .comma hb hq ht, rfl⟩

theorem Trail.spaced {closing : Char} {p : List Lexeme} {ps : List (List Lexeme)} {as ds : List Char}
    (hp : Spaced p as) (ht : Trail closing ps ds) :
    Spaced ([[',']].intercalate (p :: ps) ++ [[closing]]) (as ++ ds) := by
  induction ht generalizing p as with
  | closed hb =>
    rw [List.intercalate_singleton]
    exact hp.append (.cons hb .nil)
  | comma hb hq _ ih =>
    rw [List.intercalate_cons_cons, List.append_assoc, List.append_assoc]
    exact hp.append (.cons hb (ih hq))

theorem IsBlanks.stops_cons {bs : List Char} (h : IsBlanks bs) {c : Char} (hd : c.isDigit = false)
    (hp : c ≠ '.' ∧ c ≠ 'e' ∧ c ≠ 'E') (rest : List Char) : Stops (bs ++ c :: rest) := by
  cases bs with
  | nil => exact Json.stops_cons hd hp rest
  | cons b bs =>
    have hb : isBlank b := h b (by simp)
    simp only [isBlank, Bool.or_eq_true, beq_iff_eq] at hb
    rcases hb with ((rfl | rfl) | rfl) | rfl <;> exact Json.stops_cons rfl (by decide) _

def IsClosing (c : Char) : Prop := c = ']' ∨ c = '\x7d'

/-- No number goes on after a part. -/
theorem Trail.stops {closing : Char} (hc : IsClosing closing) {ps : List (List Lexeme)} {cs : List Char}
    (h : Trail closing ps cs) (rest : List Char) : Stops (cs ++ rest) := by
  cases h with
  | closed hb =>
    rw [List.append_assoc, List.singleton_append]
    rcases hc with rfl | rfl <;> exact hb.stops_cons rfl (by decide) rest
  | comma hb _ _ =>
    rw [List.append_assoc, List.cons_append]
    exact hb.stops_cons rfl (by decide) _

/-- Without the blanks in front the text consists of the same lexemes. -/
theorem Spaced.trim {ls : List Lexeme} {cs : List Char} (h : Spaced ls cs) {c : Char} {l : Lexeme}
    {more : List Lexeme} (hls : ls = (c :: l) :: more) (hc : isBlank c = false) :
    ∃ ds, Spaced ls (c :: ds) ∧ (c :: ds).length ≤ cs.length ∧
      ∀ rest, skipBlank (cs ++ rest) = c :: (ds ++ rest) := by
  subst hls
  obtain ⟨bs, ds, hb, hd, rfl⟩ := h.of_cons
  refine ⟨l ++ ds, hd.cons_append (c :: l), ?_, fun rest => ?_⟩
  · simp only [List.length_append, List.length_cons]
    omega
  · rw [List.append_assoc, hb.skipBlank]
    exact Json.skipBlank_cons hc _

theorem Spaced.bracketed_nil {opening closing : Char} (ho : isBlank opening = false)
    (hc : isBlank closing = false) {cs : List Char} (h : Spaced (bracketed opening closing []) cs) :
    0 < cs.length ∧ ∀ rest, ∃ after, skipBlank (cs ++ rest) = opening :: after ∧
      skipBlank after = closing :: rest := by
  obtain ⟨bs, ds, hb, hd, rfl⟩ := h.of_cons
  have hd : Spaced [[closing]] ds := hd
  obtain ⟨bs', hb', rfl⟩ := hd.of_singleton
  refine ⟨by simp only [List.length_append, List.length_singleton]; omega,
    fun rest => ⟨bs' ++ closing :: rest, ?_, hb'.skipBlank_cons hc rest⟩⟩
  have htext : bs ++ ([opening] ++ (bs' ++ [closing])) ++ rest =
      bs ++ opening :: (bs' ++ closing :: rest) := by simp
  rw [htext, hb.skipBlank_cons ho]

theorem Spaced.bracketed_cons {opening closing c : Char} {p more : List Lexeme} {l : Lexeme}
    {ps : List (List Lexeme)} {cs : List Char} (h : Spaced (bracketed opening closing (p :: ps)) cs)
    (ho : isBlank opening = false) (hp : p = (c :: l) :: more) (hc : isBlank c = false) :
    ∃ es ds, Spaced p (c :: es) ∧ Trail closing ps ds ∧ (c :: es).length + ds.length < cs.length ∧
      ∀ rest, ∃ after, skipBlank (cs ++ rest) = opening :: after ∧
        skipBlank after = c :: (es ++ (ds ++ rest)) := by
  obtain ⟨bs, es, hb, he, rfl⟩ := h.of_cons
  obtain ⟨as, ds, has, ht, rfl⟩ := he.trail
  obtain ⟨es, hes, hlength, hskip⟩ := has.trim hp hc
  refine ⟨es, ds, hes, ht, ?_, fun rest => ⟨as ++ (ds ++ rest), ?_, hskip (ds ++ rest)⟩⟩
  · simp only [List.length_append, List.length_cons] at hlength ⊢
    omega
  · rw [List.append_assoc, hb.skipBlank, List.append_assoc, List.append_assoc]
    exact Json.skipBlank_cons ho _

/-- The function goes through parts up to a closing mark: it takes a step for each, and goes on after a
comma. -/
structure IsLoop {σ β ε : Type} (closing : Char) (step : Nat → σ → List Char → Except ε (σ × List Char))
    (finish : σ → List Char → Except ε (β × List Char))
    (loop : Nat → σ → List Char → Except ε (β × List Char)) : Prop where
  failed {fuel : Nat} {st : σ} {cs : List Char} {e : ε} (h : step fuel st cs = .error e) :
    loop (fuel + 1) st cs = .error e
  closed {fuel : Nat} {st st' : σ} {cs bs rest : List Char} (hb : IsBlanks bs)
    (h : step fuel st cs = .ok (st', bs ++ closing :: rest)) : loop (fuel + 1) st cs = finish st' rest
  comma {fuel : Nat} {st st' : σ} {cs bs rest : List Char} (hb : IsBlanks bs)
    (h : step fuel st cs = .ok (st', bs ++ ',' :: rest)) : loop (fuel + 1) st cs = loop fuel st' rest

/-- An invariant is about what was read and the parts that are left. If every step keeps it, unless its
part nests too deep, and the result follows from it after the last part, then the loop gives the result,
unless one of the parts nests too deep. Fuel goes by the length of the text, times a constant. -/
theorem IsLoop.run {σ β ε π : Type} {closing : Char} {step : Nat → σ → List Char → Except ε (σ × List Char)}
    {finish : σ → List Char → Except ε (β × List Char)}
    {loop : Nat → σ → List Char → Except ε (β × List Char)} (hl : IsLoop closing step finish loop)
    (hc : IsClosing closing) (lexemes : π → List Lexeme) (depth : π → Nat) {d k : Nat} (hk : 0 < k)
    {refusal : ε} {result : β} (Inv : σ → List π → Prop)
    (hstep : ∀ st p ps, Inv st (p :: ps) → ∃ st', Inv st' ps ∧ ∀ fuel as rest, Spaced (lexemes p) as →
      Stops rest → k * as.length ≤ fuel →
      step fuel st (as ++ rest) = if depth p ≤ d then .ok (st', rest) else .error refusal)
    (hfinish : ∀ st rest, Inv st [] → finish st rest = .ok (result, rest))
    {p : π} {ps : List π} {st : σ} (hinv : Inv st (p :: ps)) {as cs : List Char} (hp : Spaced (lexemes p) as)
    (ht : Trail closing (ps.map lexemes) cs) {fuel : Nat} (hf : k * (as.length + cs.length) < fuel)
    (rest : List Char) :
    loop fuel st (as ++ (cs ++ rest)) =
      if ∀ q ∈ p :: ps, depth q ≤ d then .ok (result, rest) else .error refusal := by
  induction ps generalizing p st as cs fuel with
  | nil =>
    obtain ⟨st', hinv', hstep⟩ := hstep st p [] hinv
    obtain ⟨fuel, rfl⟩ : ∃ f, fuel = f + 1 := ⟨fuel - 1, by omega⟩
    have hread := hstep fuel as (cs ++ rest) hp (ht.stops hc rest) (by rw [Nat.mul_add] at hf; omega)
    simp only [List.forall_mem_singleton]
    by_cases hd : depth p ≤ d
    · cases ht with
      | closed hb =>
        rw [if_pos hd, List.append_assoc, List.singleton_append] at hread
        rw [if_pos hd, List.append_assoc, List.singleton_append, hl.closed hb hread, hfinish st' rest hinv']
    · rw [if_neg hd] at hread ⊢
      exact hl.failed hread
  | cons q ps ih =>
    obtain ⟨st', hinv', hstep⟩ := hstep st p (q :: ps) hinv
    obtain ⟨fuel, rfl⟩ : ∃ f, fuel = f + 1 := ⟨fuel - 1, by omega⟩
    have hread := hstep fuel as (cs ++ rest) hp (ht.stops hc rest) (by rw [Nat.mul_add] at hf; omega)
    simp only [List.forall_mem_cons (a := p)]
    by_cases hd : depth p ≤ d
    · cases ht with
      | @comma _ _ bs qs cs hb hq ht =>
        have hlength : k * (qs.length + cs.length) < fuel := by
          simp only [List.length_append, List.length_cons, Nat.mul_add] at hf ⊢
          omega
        have htext : bs ++ ',' :: (qs ++ cs) ++ rest = bs ++ ',' :: (qs ++ (cs ++ rest)) := by simp
        rw [if_pos hd, htext] at hread
        rw [htext, hl.comma hb hread, ih hinv' hq ht hlength]
        simp only [hd, true_and]
    · rw [if_neg hd] at hread
      rw [hl.failed hread, if_neg fun h => hd h.1]

end TreeWalk.Json
