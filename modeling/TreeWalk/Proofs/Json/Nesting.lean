import TreeWalk.Proofs.Json.Spelling

/-! How deep the brackets and braces of a text nest. They are counted outside quotations only. In the text
of a value, whatever its spelling is, they nest as deep as the value says. -/

namespace TreeWalk.Json

/-- Where a text is: outside a quotation, in one, or there after a backslash. -/
inductive Quoting where
  | outside
  | inside
  | escaped
deriving DecidableEq, Repr

namespace Quoting

/-- The greatest number of brackets and braces open at once, `n` being open before the text. -/
def nesting : Quoting → Nat → List Char → Nat
  | _, n, [] => n
  | .outside, n, c :: cs =>
    if c = '"' then nesting .inside n cs
    else if c = '[' ∨ c = '\x7b' then nesting .outside (n + 1) cs
    else if c = ']' ∨ c = '\x7d' then max n (nesting .outside (n - 1) cs)
    else nesting .outside n cs
  | .inside, n, c :: cs =>
    if c = '"' then nesting .outside n cs
    else if c = '\\' then nesting .escaped n cs
    else nesting .inside n cs
  | .escaped, n, _ :: cs => nesting .inside n cs

theorem le_nesting (q : Quoting) (n : Nat) (cs : List Char) : n ≤ q.nesting n cs := by
  induction cs generalizing q n with
  | nil => cases q <;> exact Nat.le_refl n
  | cons c cs ih =>
    cases q with
    | outside =>
      have hopen := ih .outside (n + 1)
      rw [nesting]
      split_ifs
      · exact ih .inside n
      · omega
      · exact Nat.le_max_left _ _
      · exact ih .outside n
    | inside =>
      rw [nesting]
      split_ifs
      · exact ih .outside n
      · exact ih .escaped n
      · exact ih .inside n
    | escaped => exact ih .inside n

/-! ### Scalars -/

/-- Neither a quotation mark nor a bracket or brace. -/
def isOrdinary (c : Char) : Bool :=
  c != '"' && c != '[' && c != ']' && c != '\x7b' && c != '\x7d'

theorem nesting_ordinary (n : Nat) {cs : List Char} (h : ∀ c ∈ cs, isOrdinary c) (rest : List Char) :
    nesting .outside n (cs ++ rest) = nesting .outside n rest := by
  induction cs with
  | nil => rfl
  | cons c cs ih =>
    have hc : isOrdinary c := h c (by simp)
    simp only [isOrdinary, Bool.and_eq_true, bne_iff_ne] at hc
    rw [List.cons_append, nesting]
    simp only [hc, or_self, if_false]
    exact ih fun d hd => h d (by simp [hd])

theorem nesting_blanks (n : Nat) {bs : List Char} (h : IsBlanks bs) (rest : List Char) :
    nesting .outside n (bs ++ rest) = nesting .outside n rest := by
  refine nesting_ordinary n (fun c hc => ?_) rest
  have hblank : isBlank c := h c hc
  simp only [isBlank, Bool.or_eq_true, beq_iff_eq] at hblank
  rcases hblank with ((rfl | rfl) | rfl) | rfl <;> rfl

theorem isOrdinary_of_isDigit {c : Char} (h : c.isDigit) : isOrdinary c := by
  have hne (k : Char) (hk : k.isDigit = false) : c ≠ k := by
    rintro rfl
    simp [hk] at h
  simp [isOrdinary, hne '"' rfl, hne '[' rfl, hne ']' rfl, hne '\x7b' rfl, hne '\x7d' rfl]

/-- The characters of a literal are digits, signs, a point and the mark of an exponent. -/
theorem isOrdinary_of_writtenAs {t : NumberText} {l : Lexeme} (h : t.WrittenAs l) : ∀ c ∈ l, isOrdinary c := by
  have hdigits {ds : List Char} (hds : NumberText.IsDigits ds) : ∀ c ∈ ds, isOrdinary c :=
    fun c hc => isOrdinary_of_isDigit (hds.2 c hc)
  obtain ⟨negative, whole, fractionDigits, exponentDigits⟩ := t
  obtain ⟨hwhole, -, fraction, exponent, hf, he, rfl⟩ := h
  have hsign : ∀ c ∈ if negative then ['-'] else [], isOrdinary c := by
    split_ifs <;> simp [isOrdinary]
  have hfraction : ∀ c ∈ fraction, isOrdinary c := by
    cases hf with
    | none => exact List.forall_mem_nil _
    | some hds => exact List.forall_mem_cons.2 ⟨rfl, hdigits hds⟩
  have hexponent : ∀ c ∈ exponent, isOrdinary c := by
    cases he with
    | none => exact List.forall_mem_nil _
    | below hm hds =>
      refine List.forall_mem_cons.2 ⟨?_, List.forall_mem_cons.2 ⟨rfl, hdigits hds⟩⟩
      rcases hm with rfl | rfl <;> rfl
    | above hm hp hds =>
      refine List.forall_mem_cons.2 ⟨?_, List.forall_mem_append.2 ⟨?_, hdigits hds⟩⟩
      · rcases hm with rfl | rfl <;> rfl
      · rcases hp with rfl | rfl <;> simp [isOrdinary]
  simp only [List.forall_mem_append]
  exact ⟨hsign, hdigits hwhole, hfraction, hexponent⟩

theorem hexUnit?_ne {a b c d : Char} {n : Nat} (h : hexUnit? a b c d = some n) :
    ∀ k ∈ [a, b, c, d], k ≠ '"' ∧ k ≠ '\\' := by
  have hne {k : Char} {m : Nat} (hk : hexValue? k = some m) : k ≠ '"' ∧ k ≠ '\\' := by
    constructor <;> rintro rfl <;> simp [hexValue?] at hk
  simp only [hexUnit?, Option.bind_eq_bind, Option.bind_eq_some_iff] at h
  obtain ⟨_, ha, _, hb, _, hc, _, hd, -⟩ := h
  simp only [List.forall_mem_cons]
  exact ⟨hne ha, hne hb, hne hc, hne hd, List.forall_mem_nil _⟩

theorem nesting_charText (n : Nat) {c : Char} {t : List Char} (h : CharText c t) (rest : List Char) :
    nesting .inside n (t ++ rest) = nesting .inside n rest := by
  cases h with
  | plain hq hb _ => simp [nesting, hq, hb]
  | short _ => rfl
  | unit h _ _ =>
    have hne := hexUnit?_ne h
    simp only [List.forall_mem_cons] at hne
    simp [nesting, hne]
  | pair hm _ hn _ =>
    have hnem := hexUnit?_ne hm
    have hnen := hexUnit?_ne hn
    simp only [List.forall_mem_cons] at hnem hnen
    simp [nesting, hnem, hnen]

theorem nesting_charsText (n : Nat) {cs ts : List Char} (h : CharsText cs ts) (rest : List Char) :
    nesting .inside n (ts ++ '"' :: rest) = nesting .outside n rest := by
  induction h with
  | nil => rfl
  | cons hc _ ih => rw [List.append_assoc, nesting_charText n hc, ih]

theorem nesting_quotedAs (n : Nat) {s : String} {l : Lexeme} (h : QuotedAs s l) (rest : List Char) :
    nesting .outside n (l ++ rest) = nesting .outside n rest := by
  obtain ⟨ts, hts, rfl⟩ := h
  rw [List.cons_append, List.append_assoc]
  exact nesting_charsText n hts rest

theorem nesting_scalarText (n : Nat) {j : Json} {l : Lexeme} (h : ScalarText j l) (rest : List Char) :
    nesting .outside n (l ++ rest) = nesting .outside n rest := by
  cases h with
  | null | boolTrue | boolFalse => rfl
  | number h _ => exact nesting_ordinary n (isOrdinary_of_writtenAs h) rest
  | string h => exact nesting_quotedAs n h rest

end Quoting

open Quoting

/-! ### Values -/

/-- The text of the value adds its depth to what is open before it. -/
def Nests (j : Json) (ls : List Lexeme) : Prop :=
  ∀ cs n rest, Spaced ls cs →
    nesting .outside n (cs ++ rest) = max (n + j.depth) (nesting .outside n rest)

/-- The parts after a bracket or a brace, which is closed after them. -/
theorem nesting_trail {closing : Char} (hc : IsClosing closing) {parts : List (Json × List Lexeme)}
    (h : ∀ p ∈ parts, Nests p.1 p.2) {cs : List Char} (ht : Trail closing (parts.map (·.2)) cs) (n : Nat)
    (rest : List Char) :
    nesting .outside (n + 1) (cs ++ rest) =
      max (n + 1 + itemsDepth (parts.map (·.1))) (nesting .outside n rest) := by
  induction parts generalizing cs with
  | nil =>
    cases ht with
    | closed hb =>
      rw [List.append_assoc, nesting_blanks _ hb]
      rcases hc with rfl | rfl <;> simp [nesting, itemsDepth]
  | cons p parts ih =>
    cases ht with
    | @comma _ _ bs as cs hb hp ht =>
      have hcomma (cs : List Char) : nesting .outside (n + 1) (',' :: cs) = nesting .outside (n + 1) cs := rfl
      rw [List.append_assoc, nesting_blanks _ hb, List.cons_append, hcomma, List.append_assoc,
        h p (by simp) as _ _ hp, ih (fun q hq => h q (by simp [hq])) ht, List.map_cons, itemsDepth]
      omega

/-- Parts between brackets or braces. -/
theorem nesting_bracketed {opening closing : Char}
    (ho : ∀ n cs, nesting .outside n (opening :: cs) = nesting .outside (n + 1) cs) (hc : IsClosing closing)
    {parts : List (Json × List Lexeme)} (h : ∀ p ∈ parts, Nests p.1 p.2) {cs : List Char}
    (hcs : Spaced (bracketed opening closing (parts.map (·.2))) cs) (n : Nat) (rest : List Char) :
    nesting .outside n (cs ++ rest) =
      max (n + (itemsDepth (parts.map (·.1)) + 1)) (nesting .outside n rest) := by
  obtain ⟨bs, ds, hb, hds, rfl⟩ := hcs.of_cons
  rw [List.append_assoc, nesting_blanks n hb, List.append_assoc, List.singleton_append, ho]
  cases parts with
  | nil =>
    have hds : Spaced [[closing]] ds := hds
    obtain ⟨bs', hb', rfl⟩ := hds.of_singleton
    rw [nesting_trail hc h (.closed hb')]
    simp only [List.map_nil, itemsDepth]
  | cons p parts =>
    obtain ⟨as, es, hp, ht, rfl⟩ := hds.trail
    rw [List.append_assoc, h p (by simp) as _ _ hp, nesting_trail hc (fun q hq => h q (by simp [hq])) ht,
      List.map_cons, itemsDepth]
    omega

theorem nests_scalar {j : Json} {l : Lexeme} (h : ScalarText j l) : Nests j [l] := by
  intro cs n rest hcs
  obtain ⟨bs, hb, rfl⟩ := hcs.of_singleton
  rw [List.append_assoc, nesting_blanks n hb, nesting_scalarText n h, h.depth,
    Nat.add_zero, Nat.max_eq_right (le_nesting _ _ _)]

/-- The key of a member and its colon open nothing. -/
theorem nests_member {m : Member} (hn : QuotedAs m.key m.name) (h : Nests m.value m.body) :
    Nests m.value m.lexemes := by
  intro cs n rest hcs
  have hcolon (cs : List Char) : nesting .outside n (':' :: cs) = nesting .outside n cs := rfl
  obtain ⟨bs, ds, hb, hds, rfl⟩ := hcs.of_cons
  obtain ⟨bs', es, hb', hes, rfl⟩ := hds.of_cons
  simp only [List.append_assoc, List.cons_append, List.nil_append]
  rw [nesting_blanks n hb, nesting_quotedAs n hn, nesting_blanks n hb', hcolon, h es n rest hes]

/-- In the text of a value, brackets and braces nest as deep as in the value. -/
theorem Spelling.nests {j : Json} {ls : List Lexeme} (h : Spelling j ls) : Nests j ls := by
  induction h with
  | scalar h => exact nests_scalar h
  | array _ ih =>
    intro cs n rest hcs
    rw [nesting_bracketed (fun _ _ => rfl) (.inl rfl) ih hcs, depth]
  | @object members hn _ ih =>
    intro cs n rest hcs
    have hparts : ∀ p ∈ members.map fun m => (m.value, m.lexemes), Nests p.1 p.2 :=
      List.forall_mem_map.2 fun m hm => nests_member (hn m hm) (ih m hm)
    have hlexemes : members.map Member.lexemes = (members.map fun m => (m.value, m.lexemes)).map (·.2) := by
      simp
    rw [hlexemes] at hcs
    rw [nesting_bracketed (fun _ _ => rfl) (.inr rfl) hparts hcs, depth, membersDepth_eq, List.map_map,
      List.map_map]
    rfl

/-- How deep the brackets and braces of a text nest. -/
def nestingDepth (text : String) : Nat := nesting .outside 0 text.toList

theorem Spelling.nestingDepth_eq {j : Json} {ls : List Lexeme} (h : Spelling j ls) {cs blanks : List Char}
    (hcs : Spaced ls cs) (hb : IsBlanks blanks) {text : String} (htext : text.toList = cs ++ blanks) :
    nestingDepth text = j.depth := by
  have hblanks := nesting_blanks 0 hb []
  rw [List.append_nil] at hblanks
  rw [nestingDepth, htext, h.nests cs 0 blanks hcs, hblanks]
  simp [nesting]

end TreeWalk.Json
