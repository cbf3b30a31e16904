import Mathlib.Data.List.TakeDrop
import TreeWalk.Json.Skip

/-! The lexemes of JSON text. A string may be written with any escapes that name its characters, a number
as any literal with its value. Such a lexeme is read as its value, and passed over, wherever no character
follows that could go on with a number. A text consists of lexemes with any blanks before each of them. -/

namespace TreeWalk.Json

/-- A word, a number, a quoted string or a mark. -/
abbrev Lexeme := List Char

/-! ### Blanks -/

theorem skipBlank_cons {c : Char} (h : isBlank c = false) (cs : List Char) :
    skipBlank (c :: cs) = c :: cs := by
  simp [skipBlank, h]

def IsBlanks (cs : List Char) : Prop := ∀ c ∈ cs, isBlank c

instance (cs : List Char) : Decidable (IsBlanks cs) := List.decidableBAll _ cs

theorem isBlanks_nil : IsBlanks [] := List.forall_mem_nil _

theorem IsBlanks.skipBlank {bs : List Char} (h : IsBlanks bs) (cs : List Char) :
    skipBlank (bs ++ cs) = Json.skipBlank cs :=
  List.dropWhile_append_of_pos h

theorem IsBlanks.skipBlank_cons {bs : List Char} (h : IsBlanks bs) {c : Char} (hc : isBlank c = false)
    (cs : List Char) : Json.skipBlank (bs ++ c :: cs) = c :: cs := by
  rw [h.skipBlank, Json.skipBlank_cons hc]

/-- The text consists of the lexemes, in order and with any blanks before each. -/
inductive Spaced : List Lexeme → List Char → Prop where
  | nil : Spaced [] []
  | cons {blanks : List Char} {lexeme : Lexeme} {lexemes : List Lexeme} {cs : List Char}
      (hb : IsBlanks blanks) (h : Spaced lexemes cs) : Spaced (lexeme :: lexemes) (blanks ++ (lexeme ++ cs))

theorem Spaced.append {ls ms : List Lexeme} {as bs : List Char} (hl : Spaced ls as) (hm : Spaced ms bs) :
    Spaced (ls ++ ms) (as ++ bs) := by
  induction hl with
  | nil => exact hm
  | cons hb _ ih =>
    simp only [List.append_assoc]
    exact .cons hb ih

theorem Spaced.of_append {ls ms : List Lexeme} {cs : List Char} (h : Spaced (ls ++ ms) cs) :
    ∃ as bs, Spaced ls as ∧ Spaced ms bs ∧ cs = as ++ bs := by
  induction ls generalizing cs with
  | nil => exact ⟨[], cs, .nil, h, rfl⟩
  | cons l ls ih =>
    cases h with
    | cons hb h =>
      obtain ⟨as, bs, has, hbs, rfl⟩ := ih h
      exact ⟨_, bs, .cons hb has, hbs, by simp⟩

theorem Spaced.of_cons {l : Lexeme} {ls : List Lexeme} {cs : List Char} (h : Spaced (l :: ls) cs) :
    ∃ bs ds, IsBlanks bs ∧ Spaced ls ds ∧ cs = bs ++ (l ++ ds) := by
  cases h with
  | cons hb h => exact ⟨_, _, hb, h, rfl⟩

theorem Spaced.of_singleton {l : Lexeme} {cs : List Char} (h : Spaced [l] cs) :
    ∃ bs, IsBlanks bs ∧ cs = bs ++ l := by
  obtain ⟨bs, ds, hb, hd, rfl⟩ := h.of_cons
  cases hd
  exact ⟨bs, hb, by rw [List.append_nil]⟩

/-- No blanks have to stand before a lexeme. -/
theorem Spaced.cons_append (l : Lexeme) {ls : List Lexeme} {cs : List Char} (h : Spaced ls cs) :
    Spaced (l :: ls) (l ++ cs) :=
  .cons isBlanks_nil h

theorem spaced_singleton (l : Lexeme) : Spaced [l] l := by
  have hspaced := Spaced.nil.cons_append l
  rwa [List.append_nil] at hspaced

/-- Lexemes with the same blanks before each. -/
theorem spaced_flatMap {bs : List Char} (hb : IsBlanks bs) (ls : List Lexeme) :
    Spaced ls (ls.flatMap (bs ++ ·)) := by
  induction ls with
  | nil => exact .nil
  | cons l ls ih =>
    rw [List.flatMap_cons, List.append_assoc]
    exact .cons hb ih

/-- Further blanks may stand in front. -/
theorem Spaced.blanks_append {ls : List Lexeme} {cs : List Char} (h : Spaced ls cs) (hls : ls ≠ [])
    {bs : List Char} (hb : IsBlanks bs) : Spaced ls (bs ++ cs) := by
  cases h with
  | nil => exact absurd rfl hls
  | cons hb' h =>
    rw [← List.append_assoc]
    exact .cons (List.forall_mem_append.2 ⟨hb, hb'⟩) h

/-! ### Strings -/

/-- How a character may be written inside quotes. -/
inductive CharText : Char → List Char → Prop where
  | plain {c : Char} (hq : c ≠ '"') (hb : c ≠ '\\') (hc : ¬ c.toNat < 0x20) : CharText c [c]
  | short {c e : Char} (h : shortEscape? e = some c) : CharText c ['\\', e]
  | unit {a b c d : Char} {n : Nat} (h : hexUnit? a b c d = some n) (hl : isLeading n = false)
      (ht : isTrailing n = false) : CharText (Char.ofNat n) ['\\', 'u', a, b, c, d]
  | pair {a b c d a' b' c' d' : Char} {m n : Nat} (hm : hexUnit? a b c d = some m) (hl : isLeading m)
      (hn : hexUnit? a' b' c' d' = some n) (ht : isTrailing n) :
      CharText (joinPair m n) ['\\', 'u', a, b, c, d, '\\', 'u', a', b', c', d']

/-- How characters may be written one after the other inside quotes. -/
inductive CharsText : List Char → List Char → Prop where
  | nil : CharsText [] []
  | cons {c : Char} {t : List Char} {cs ts : List Char} (hc : CharText c t) (h : CharsText cs ts) :
      CharsText (c :: cs) (t ++ ts)

/-- The lexeme is the string in quotes. -/
def QuotedAs (s : String) (lexeme : Lexeme) : Prop :=
  ∃ ts, CharsText s.toList ts ∧ lexeme = '"' :: (ts ++ ['"'])

theorem readQuoted_plain (acc : List Char) {c : Char} (hq : c ≠ '"') (hb : c ≠ '\\')
    (hc : ¬ c.toNat < 0x20) (cs : List Char) :
    readQuoted acc (c :: cs) = readQuoted (c :: acc) cs := by
  rw [readQuoted.eq_def]
  split <;> simp_all [Nat.not_lt_of_le]

theorem isTrailing_of_isLeading {n : Nat} (h : isLeading n) : isTrailing n = false := by
  simp only [isLeading, Bool.and_eq_true, decide_eq_true_eq] at h
  simp only [isTrailing, Bool.and_eq_false_iff, decide_eq_false_iff_not]
  omega

theorem CharText.readQuoted {c : Char} {t : List Char} (h : CharText c t) (acc cs : List Char) :
    readQuoted acc (t ++ cs) = Json.readQuoted (c :: acc) cs := by
  cases h with
  | plain hq hb hc => exact readQuoted_plain acc hq hb hc cs
  | @short c e h =>
    have hu : e ≠ 'u' := by
      rintro rfl
      simp [shortEscape?] at h
    rw [Json.readQuoted.eq_def]
    simp [h]
  | unit h hl ht => simp [Json.readQuoted, h, hl, ht]
  | pair hm hl hn ht => simp [Json.readQuoted, hm, hl, isTrailing_of_isLeading hl, hn, ht]

theorem CharText.skipQuoted {c : Char} {t : List Char} (h : CharText c t) (cs : List Char) :
    skipQuoted (t ++ cs) = Json.skipQuoted cs := by
  cases h with
  | plain hq hb hc =>
    rw [List.singleton_append, Json.skipQuoted.eq_def]
    split <;> simp_all [Nat.not_lt_of_le]
  | @short c e h =>
    have hu : e ≠ 'u' := by
      rintro rfl
      simp [shortEscape?] at h
    rw [Json.skipQuoted.eq_def]
    simp [h]
  | unit h hl ht => simp [Json.skipQuoted, h]
  | pair hm hl hn ht => simp [Json.skipQuoted, hm, hn]

theorem CharsText.readQuoted {cs ts : List Char} (h : CharsText cs ts) (acc rest : List Char) :
    readQuoted acc (ts ++ '"' :: rest) = .ok (String.ofList (acc.reverse ++ cs), rest) := by
  induction h generalizing acc with
  | nil => simp [Json.readQuoted]
  | cons hc _ ih =>
    rw [List.append_assoc, hc.readQuoted, ih, List.reverse_cons, List.append_assoc, List.singleton_append]

theorem CharsText.skipQuoted {cs ts : List Char} (h : CharsText cs ts) (rest : List Char) :
    skipQuoted (ts ++ '"' :: rest) = .ok rest := by
  induction h with
  | nil => rfl
  | cons hc _ ih => rw [List.append_assoc, hc.skipQuoted, ih]

/-- A quoted string is read back after its opening quote, and can be passed over. -/
theorem QuotedAs.reads {s : String} {l : Lexeme} (h : QuotedAs s l) :
    ∃ ts, l = '"' :: ts ∧ ∀ rest, readQuoted [] (ts ++ rest) = .ok (s, rest) ∧
      skipQuoted (ts ++ rest) = .ok rest := by
  obtain ⟨ts, hts, rfl⟩ := h
  refine ⟨ts ++ ['"'], rfl, fun rest => ?_⟩
  have hread := hts.readQuoted [] rest
  rw [List.reverse_nil, List.nil_append, String.ofList_toList] at hread
  rw [List.append_assoc, List.singleton_append]
  exact ⟨hread, hts.skipQuoted rest⟩

/-! ### Numbers -/

/-- The text does not go on with a number. -/
def Stops (rest : List Char) : Prop :=
  ∀ c ∈ rest.head?, c.isDigit = false ∧ c ≠ '.' ∧ c ≠ 'e' ∧ c ≠ 'E'

theorem stops_cons {c : Char} (hd : c.isDigit = false) (hp : c ≠ '.' ∧ c ≠ 'e' ∧ c ≠ 'E')
    (rest : List Char) : Stops (c :: rest) := by
  rintro d ⟨⟩
  exact ⟨hd, hp⟩

namespace NumberText

def IsDigits (ds : List Char) : Prop := ds ≠ [] ∧ ∀ c ∈ ds, c.isDigit

instance (ds : List Char) : Decidable (IsDigits ds) :=
  @instDecidableAnd _ _ inferInstance (List.decidableBAll _ ds)

/-- How the digits after the point may be written, with the point. -/
inductive FractionText : List Char → List Char → Prop where
  | none : FractionText [] []
  | some {ds : List Char} (h : IsDigits ds) : FractionText ds ('.' :: ds)

/-- How an exponent may be written, with its mark and sign. -/
inductive ExponentText : Option (Bool × List Char) → List Char → Prop where
  | none : ExponentText none []
  | below {mark : Char} {ds : List Char} (hm : mark = 'e' ∨ mark = 'E') (h : IsDigits ds) :
      ExponentText (some (true, ds)) (mark :: '-' :: ds)
  | above {mark : Char} {plus ds : List Char} (hm : mark = 'e' ∨ mark = 'E') (hp : plus = [] ∨ plus = ['+'])
      (h : IsDigits ds) : ExponentText (some (false, ds)) (mark :: (plus ++ ds))

/-- The lexeme is a literal with these parts. Only the number zero starts with a zero. -/
structure WrittenAs (t : NumberText) (lexeme : Lexeme) : Prop where
  digits : IsDigits t.whole
  zero : ∀ c ds, t.whole ≠ '0' :: c :: ds
  text : ∃ fraction exponent, FractionText t.fraction fraction ∧ ExponentText t.exponent exponent ∧
    lexeme = (if t.negative then ['-'] else []) ++ (t.whole ++ (fraction ++ exponent))

theorem spanDigits_append {ds rest : List Char} (hd : ∀ c ∈ ds, c.isDigit)
    (hr : ∀ c ∈ rest.head?, c.isDigit = false) : spanDigits (ds ++ rest) = (ds, rest) := by
  have hrest : rest.takeWhile Char.isDigit = [] ∧ rest.dropWhile Char.isDigit = rest := by
    cases rest with
    | nil => exact ⟨rfl, rfl⟩
    | cons c rest => simp [hr c rfl]
  rw [spanDigits, List.span_eq_takeWhile_dropWhile, List.takeWhile_append_of_pos hd,
    List.dropWhile_append_of_pos hd, hrest.1, hrest.2, List.append_nil]

theorem IsDigits.scanDigits {ds rest : List Char} (h : IsDigits ds)
    (hr : ∀ c ∈ rest.head?, c.isDigit = false) : scanDigits (ds ++ rest) = .ok (ds, rest) := by
  rw [NumberText.scanDigits, spanDigits_append h.2 hr]
  cases ds with
  | nil => exact absurd rfl h.1
  | cons d ds => rfl

theorem IsDigits.cons {ds : List Char} (h : IsDigits ds) : ∃ d more, ds = d :: more ∧ d.isDigit := by
  cases ds with
  | nil => exact absurd rfl h.1
  | cons d more => exact ⟨d, more, rfl, h.2 d (by simp)⟩

theorem scanExponent_of_stops {rest : List Char} (h : Stops rest) :
    scanExponent rest = .ok (none, rest) := by
  cases rest with
  | nil => rfl
  | cons c rest => simp [scanExponent, (h c rfl).2.2]

theorem ExponentText.scanExponent {e : Option (Bool × List Char)} {cs rest : List Char}
    (h : ExponentText e cs) (hr : Stops rest) : scanExponent (cs ++ rest) = .ok (e, rest) := by
  have hrest : ∀ c ∈ rest.head?, c.isDigit = false := fun c hc => (hr c hc).1
  cases h with
  | none => exact scanExponent_of_stops hr
  | @below mark ds hm h =>
    have hmark : (mark == 'e' || mark == 'E') = true := by simpa using hm
    simp [NumberText.scanExponent, hmark, scanSign, h.scanDigits hrest, bind, Except.bind, pure, Except.pure]
  | @above mark plus ds hm hp h =>
    have hmark : (mark == 'e' || mark == 'E') = true := by simpa using hm
    have hsign : scanSign (plus ++ ds ++ rest) = (false, ds ++ rest) := by
      obtain ⟨d, more, rfl, hd⟩ := h.cons
      rcases hp with rfl | rfl
      · rw [List.nil_append, List.cons_append, scanSign.eq_def]
        split <;> simp_all
      · rfl
    rw [List.cons_append, NumberText.scanExponent, if_pos hmark, hsign]
    simp [h.scanDigits hrest, bind, Except.bind, pure, Except.pure]

/-- A fraction ends before its exponent. -/
theorem ExponentText.head {e : Option (Bool × List Char)} {cs rest : List Char} (h : ExponentText e cs)
    (hr : Stops rest) : ∀ c ∈ (cs ++ rest).head?, c.isDigit = false ∧ c ≠ '.' := by
  cases h with
  | none => exact fun c hc => ⟨(hr c hc).1, (hr c hc).2.1⟩
  | below hm _ =>
    rintro c ⟨⟩
    rcases hm with rfl | rfl <;> decide
  | above hm _ _ =>
    rintro c ⟨⟩
    rcases hm with rfl | rfl <;> decide

theorem FractionText.scanFraction {ds cs rest : List Char} (h : FractionText ds cs)
    (hr : ∀ c ∈ rest.head?, c.isDigit = false ∧ c ≠ '.') : scanFraction (cs ++ rest) = .ok (ds, rest) := by
  cases h with
  | none =>
    cases rest with
    | nil => rfl
    | cons c rest =>
      rw [List.nil_append, NumberText.scanFraction]
      intro after heq
      exact (hr c rfl).2 (List.cons.inj heq).1
  | some h => exact h.scanDigits fun c hc => (hr c hc).1

theorem FractionText.head {ds cs rest : List Char} (h : FractionText ds cs)
    (hr : ∀ c ∈ rest.head?, c.isDigit = false) : ∀ c ∈ (cs ++ rest).head?, c.isDigit = false := by
  cases h with
  | none => exact hr
  | some _ =>
    rintro c ⟨⟩
    rfl

/-- A literal is scanned up to a character that does not go on with it. -/
theorem WrittenAs.scan {t : NumberText} {l : Lexeme} (h : t.WrittenAs l) {rest : List Char}
    (hr : Stops rest) : scan (l ++ rest) = .ok (t, rest) := by
  obtain ⟨negative, whole, fraction, exponent⟩ := t
  obtain ⟨hdigits, hzero, f, e, hf, he, rfl⟩ := h
  have hwhole : scanWhole (whole ++ (f ++ (e ++ rest))) = .ok (whole, f ++ (e ++ rest)) := by
    rw [scanWhole, hdigits.scanDigits (hf.head fun c hc => (he.head hr c hc).1)]
    simp only [bind, Except.bind]
  have hfraction := hf.scanFraction (he.head hr)
  have hexponent := he.scanExponent hr
  cases negative with
  | true =>
    rw [if_pos rfl, List.singleton_append, List.cons_append, NumberText.scan]
    simp [hwhole, hfraction, hexponent, bind, Except.bind, pure, Except.pure]
  | false =>
    rw [if_neg (by simp), List.nil_append, NumberText.scan]
    · simp [hwhole, hfraction, hexponent, bind, Except.bind, pure, Except.pure]
    · intro after heq
      obtain ⟨d, more, rfl, hd⟩ := hdigits.cons
      rw [List.cons_append, List.cons_append, List.cons.injEq] at heq
      simp [heq.1] at hd

/-- A literal starts with a sign or a digit. -/
theorem WrittenAs.cons {t : NumberText} {l : Lexeme} (h : t.WrittenAs l) :
    ∃ c cs, l = c :: cs ∧ (c = '-' ∨ c.isDigit) := by
  obtain ⟨hdigits, -, f, e, -, -, rfl⟩ := h
  by_cases hneg : t.negative
  · exact ⟨'-', _, by rw [if_pos hneg]; rfl, .inl rfl⟩
  · obtain ⟨d, ds, hds, hd⟩ := hdigits.cons
    exact ⟨d, _, by rw [if_neg hneg, hds]; rfl, .inr hd⟩

end NumberText

/-! ### Scalars -/

/-- How a value that is neither an array nor an object may be written. Numbers are in range. -/
inductive ScalarText : Json → Lexeme → Prop where
  | null : ScalarText .null ['n', 'u', 'l', 'l']
  | boolTrue : ScalarText (.bool true) ['t', 'r', 'u', 'e']
  | boolFalse : ScalarText (.bool false) ['f', 'a', 'l', 's', 'e']
  | number {t : NumberText} {j : Json} {l : Lexeme} (h : t.WrittenAs l) (hj : t.value? = some j) : ScalarText j l
  | string {s : String} {l : Lexeme} (h : QuotedAs s l) : ScalarText (.string s) l

/-- The value of a literal is a number. -/
theorem NumberText.value?_eq_some {t : NumberText} {j : Json} (h : t.value? = some j) :
    (∃ n, j = .integer n) ∨ ∃ x, j = .double x := by
  unfold NumberText.value? at h
  split at h
  · exact .inl ⟨_, (Option.some.inj h).symm⟩
  · obtain ⟨x, -, rfl⟩ := Option.map_eq_some_iff.1 h
    exact .inr ⟨x, rfl⟩

theorem ne_of_number {c k : Char} (hc : c = '-' ∨ c.isDigit) (hk : k ≠ '-' ∧ k.isDigit = false) :
    c ≠ k := by
  rintro rfl
  simp [hk] at hc

theorem isBlank_of_number {c : Char} (hc : c = '-' ∨ c.isDigit) : isBlank c = false := by
  have hne (k : Char) (hk : k ≠ '-' ∧ k.isDigit = false) : (c == k) = false :=
    beq_eq_false_iff_ne.2 (ne_of_number hc hk)
  simp [isBlank, hne ' ' (by decide), hne '\t' (by decide), hne '\n' (by decide), hne '\r' (by decide)]

/-- What starts with a sign or a digit is read as a number. -/
theorem readScalar_number {c : Char} (hc : c = '-' ∨ c.isDigit) (cs : List Char) :
    readScalar c cs = readNumber (c :: cs) := by
  unfold readScalar
  split <;> simp_all

/-- A scalar is read by its first character, which opens neither an array nor an object, and can be
passed over. -/
theorem ScalarText.reads {j : Json} {l : Lexeme} (h : ScalarText j l) :
    ∃ c cs, l = c :: cs ∧ isBlank c = false ∧ c ≠ '[' ∧ c ≠ ']' ∧ c ≠ '\x7b' ∧
      ∀ rest, Stops rest → readScalar c (cs ++ rest) = .ok (j, rest) ∧ skipScalar c (cs ++ rest) = .ok rest := by
  cases h with
  | null | boolTrue | boolFalse =>
    exact ⟨_, _, rfl, rfl, by decide, by decide, by decide, fun _ _ => ⟨rfl, rfl⟩⟩
  | number h hj =>
    obtain ⟨c, cs, rfl, hc⟩ := h.cons
    refine ⟨c, cs, rfl, isBlank_of_number hc, ne_of_number hc (by decide), ne_of_number hc (by decide),
      ne_of_number hc (by decide), fun rest hrest => ?_⟩
    have hscan := h.scan hrest
    rw [List.cons_append] at hscan
    constructor
    · rw [readScalar_number hc, readNumber, hscan]
      simp [bind, Except.bind, hj]
    · unfold skipScalar
      split <;> simp_all
  | string h =>
    obtain ⟨ts, rfl, hts⟩ := h.reads
    refine ⟨'"', ts, rfl, rfl, by decide, by decide, by decide, fun rest _ => ?_⟩
    rw [readScalar, skipScalar, (hts rest).1]
    exact ⟨rfl, (hts rest).2⟩

end TreeWalk.Json
