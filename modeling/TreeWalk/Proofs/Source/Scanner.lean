import Mathlib.Tactic.SplitIfs
import TreeWalk.Value

/-! Source text as a list of tokens: words, numbers, quotations and marks. A scanner reads one
character at a time and keeps the token that it is in the middle of; blanks only separate tokens. A
text spells a list of tokens if the scanner reads exactly these from it. Two texts that are spelled one
after the other need no blank between them if the second starts with a character that goes on with no
token of the first. -/

namespace TreeWalk.Source

/-- The smallest parts of source text. -/
inductive Token where
  | word (letters : String)
  | number (n : Nat)
  | quoted (s : String)
  | mark (s : String)
deriving DecidableEq, Repr

def isLetter (c : Char) : Bool := c.isAlpha || c == '_'

def isWordChar (c : Char) : Bool := c.isAlphanum || c == '_'

def isBlank (c : Char) : Bool := c == ' ' || c == '\n'

/-- Whether two characters are one mark. -/
def continues (a c : Char) : Bool :=
  c == '=' && (a == '=' || a == '!' || a == '<' || a == '>') || c == '&' && a == '&' ||
    c == '|' && a == '|' || c == '>' && a == '-'

/-- The character that an escape stands for. -/
def unescape (c : Char) : Char :=
  if c = 'n' then '\n' else if c = 'r' then '\r' else if c = 't' then '\t' else c

/-- What was read of the present token. -/
inductive Pending where
  | nothing
  | word (letters : List Char)
  | number (n : Nat)
  | quoted (s : List Char)
  /-- A quotation after a backslash. -/
  | escaped (s : List Char)
  | mark (c : Char)
deriving DecidableEq, Repr

/-- The tokens read so far and the present one. -/
structure Scanner where
  tokens : List Token := []
  pending : Pending := .nothing
deriving DecidableEq, Repr

namespace Scanner

/-- Reads the first character of a token. -/
def start (tokens : List Token) (c : Char) : Scanner :=
  if isBlank c then ⟨tokens, .nothing⟩
  else if isLetter c then ⟨tokens, .word [c]⟩
  else if c.isDigit then ⟨tokens, .number (c.toNat - '0'.toNat)⟩
  else if c = '"' then ⟨tokens, .quoted []⟩
  else ⟨tokens, .mark c⟩

/-- Ends the present token. A quotation stays open. -/
def settle (s : Scanner) : Scanner :=
  match s.pending with
  | .word w => ⟨s.tokens ++ [.word (String.ofList w)], .nothing⟩
  | .number n => ⟨s.tokens ++ [.number n], .nothing⟩
  | .mark c => ⟨s.tokens ++ [.mark (String.ofList [c])], .nothing⟩
  | .nothing | .quoted _ | .escaped _ => s

/-- Reads a character. -/
def step (s : Scanner) (c : Char) : Scanner :=
  match s.pending with
  | .nothing => start s.tokens c
  | .word w => if isWordChar c then ⟨s.tokens, .word (w ++ [c])⟩ else start s.settle.tokens c
  | .number n =>
    if c.isDigit then ⟨s.tokens, .number (10 * n + (c.toNat - '0'.toNat))⟩
    else start s.settle.tokens c
  | .quoted t =>
    if c = '"' then ⟨s.tokens ++ [.quoted (String.ofList t)], .nothing⟩
    else if c = '\\' then ⟨s.tokens, .escaped t⟩
    else ⟨s.tokens, .quoted (t ++ [c])⟩
  | .escaped t => ⟨s.tokens, .quoted (t ++ [unescape c])⟩
  | .mark a =>
    if continues a c then ⟨s.tokens ++ [.mark (String.ofList [a, c])], .nothing⟩
    else start s.settle.tokens c

def run (s : Scanner) (cs : List Char) : Scanner := cs.foldl step s

@[simp] theorem run_nil (s : Scanner) : s.run [] = s := rfl

@[simp] theorem run_cons (s : Scanner) (c : Char) (cs : List Char) :
    s.run (c :: cs) = (s.step c).run cs := rfl

theorem run_append (s : Scanner) (cs ds : List Char) : s.run (cs ++ ds) = (s.run cs).run ds :=
  List.foldl_append

end Scanner

/-- The tokens of a text, unless a quotation is open at its end. -/
def scan (text : String) : Option (List Token) :=
  let s := (Scanner.run {} text.toList).settle
  if s.pending = .nothing then some s.tokens else none

/-! ### Texts that spell tokens -/

/-- After any tokens, the scanner reads `ts` from the text and is then between two tokens. -/
def Spells (cs : List Char) (ts : List Token) : Prop :=
  ∀ before, (Scanner.run ⟨before, .nothing⟩ cs).settle = ⟨before ++ ts, .nothing⟩

theorem Spells.scan {text : String} {ts : List Token} (h : Spells text.toList ts) :
    scan text = some ts := by
  have hr := h []
  simp only [List.nil_append] at hr
  simp [Source.scan, hr]

/-- A character that goes on with no token but a quotation. -/
def isBreak (c : Char) : Bool :=
  !isWordChar c && !(c == '=' || c == '&' || c == '|' || c == '>')

theorem continues_of_isBreak {c : Char} (h : isBreak c) (a : Char) : continues a c = false := by
  simp only [isBreak, Bool.and_eq_true, Bool.not_eq_true', Bool.or_eq_false_iff] at h
  simp [continues, h.2]

theorem isDigit_of_isBreak {c : Char} (h : isBreak c) : c.isDigit = false := by
  simp only [isBreak, isWordChar, Char.isAlphanum, Bool.and_eq_true, Bool.not_eq_true',
    Bool.or_eq_false_iff] at h
  exact h.1.1.2

/-- Reading a break is the same whether or not the token before it was ended. -/
theorem step_settle {s : Scanner} {c : Char} (hs : s.settle.pending = .nothing) (hc : isBreak c) :
    s.settle.step c = s.step c := by
  obtain ⟨ts, p⟩ := s
  cases p with
  | nothing => rfl
  | word w =>
    have hw : isWordChar c = false := by
      simp only [isBreak, Bool.and_eq_true, Bool.not_eq_true'] at hc
      exact hc.1
    simp [Scanner.settle, Scanner.step, hw]
  | number n => simp [Scanner.settle, Scanner.step, isDigit_of_isBreak hc]
  | quoted t => simp [Scanner.settle] at hs
  | escaped t => simp [Scanner.settle] at hs
  | mark a => simp [Scanner.settle, Scanner.step, continues_of_isBreak hc]

/-- Two texts one after the other, the second of which starts with a break. -/
theorem Spells.append {cs ds : List Char} {ts us : List Token} (hc : Spells cs ts)
    (hd : Spells ds us) (hb : ∀ c ∈ ds.head?, isBreak c) : Spells (cs ++ ds) (ts ++ us) := by
  intro before
  have hs := hc before
  rw [Scanner.run_append]
  cases ds with
  | nil =>
    have hu := hd []
    simp only [Scanner.run_nil, Scanner.settle, List.nil_append, Scanner.mk.injEq, and_true] at hu
    rw [Scanner.run_nil, hs, ← hu, List.append_nil]
  | cons d ds =>
    have hbd : isBreak d := hb d rfl
    have hp : (Scanner.run ⟨before, .nothing⟩ cs).settle.pending = .nothing := by rw [hs]
    rw [Scanner.run_cons, ← step_settle hp hbd, hs, ← Scanner.run_cons, hd, List.append_assoc]

theorem Spells.blank {cs : List Char} {ts : List Token} (h : Spells cs ts) : Spells (' ' :: cs) ts :=
  fun before => h before

/-- A mark of one character, before a text that does not go on with it. -/
theorem Spells.mark_cons {a : Char} {cs : List Char} {ts : List Token}
    (ha : ∀ before, Scanner.start before a = ⟨before, .mark a⟩) (h : Spells cs ts)
    (hc : ∀ c ∈ cs.head?, continues a c = false) :
    Spells (a :: cs) (.mark (String.ofList [a]) :: ts) := by
  intro before
  have hs : Scanner.step ⟨before, .nothing⟩ a = ⟨before, .mark a⟩ := ha before
  rw [Scanner.run_cons, hs]
  cases cs with
  | nil =>
    have hu := h []
    simp only [Scanner.run_nil, Scanner.settle, List.nil_append, Scanner.mk.injEq, and_true] at hu
    simp [Scanner.settle, ← hu]
  | cons c cs =>
    have hn : Scanner.step ⟨before, .mark a⟩ c =
        Scanner.step ⟨before ++ [.mark (String.ofList [a])], .nothing⟩ c := by
      simp [Scanner.step, Scanner.settle, hc c rfl]
    rw [Scanner.run_cons, hn, ← Scanner.run_cons, h, List.append_assoc, List.singleton_append]

/-! ### Single tokens -/

theorem isWordChar_of_isLetter {c : Char} (h : isLetter c) : isWordChar c := by
  simp only [isLetter, Bool.or_eq_true] at h
  simp only [isWordChar, Char.isAlphanum, Bool.or_eq_true]
  exact h.imp_left .inl

theorem isBlank_of_isWordChar {c : Char} (h : isWordChar c) : isBlank c = false := by
  cases hb : isBlank c with
  | false => rfl
  | true =>
    simp only [isBlank, Bool.or_eq_true, beq_iff_eq] at hb
    rcases hb with rfl | rfl <;> simp [isWordChar] at h

theorem isLetter_of_isDigit {c : Char} (h : c.isDigit) : isLetter c = false := by
  cases hl : isLetter c with
  | false => rfl
  | true =>
    delta isLetter Char.isAlpha Char.isUpper Char.isLower at hl
    simp only [Char.isDigit, Bool.or_eq_true, Bool.and_eq_true, decide_eq_true_eq, beq_iff_eq,
      UInt32.le_iff_toNat_le, ge_iff_le] at hl h
    rcases hl with (hl | hl) | rfl
    · exact absurd (Nat.le_trans hl.1 h.2) (by decide)
    · exact absurd (Nat.le_trans hl.1 h.2) (by decide)
    · simp at h

theorem run_word (before : List Token) (w cs : List Char) (h : ∀ c ∈ cs, isWordChar c) :
    Scanner.run ⟨before, .word w⟩ cs = ⟨before, .word (w ++ cs)⟩ := by
  induction cs generalizing w with
  | nil => simp
  | cons c cs ih =>
    have hc : isWordChar c := h c (by simp)
    have hs : Scanner.step ⟨before, .word w⟩ c = ⟨before, .word (w ++ [c])⟩ := by
      simp [Scanner.step, hc]
    rw [Scanner.run_cons, hs, ih _ fun d hd => h d (by simp [hd]), List.append_assoc,
      List.singleton_append]

theorem spells_word {c : Char} {cs : List Char} (hc : isLetter c) (h : ∀ d ∈ cs, isWordChar d) :
    Spells (c :: cs) [.word (String.ofList (c :: cs))] := by
  intro before
  have hb : isBlank c = false := isBlank_of_isWordChar (isWordChar_of_isLetter hc)
  have hs : Scanner.step ⟨before, .nothing⟩ c = ⟨before, .word [c]⟩ := by
    simp [Scanner.step, Scanner.start, hb, hc]
  rw [Scanner.run_cons, hs, run_word before [c] cs h]
  rfl

theorem run_number (before : List Token) (n : Nat) (cs : List Char) (h : ∀ c ∈ cs, c.isDigit) :
    Scanner.run ⟨before, .number n⟩ cs = ⟨before, .number (Nat.ofDigitChars 10 cs n)⟩ := by
  induction cs generalizing n with
  | nil => simp
  | cons c cs ih =>
    have hc : c.isDigit := h c (by simp)
    have hs : Scanner.step ⟨before, .number n⟩ c =
        ⟨before, .number (10 * n + (c.toNat - '0'.toNat))⟩ := by
      simp [Scanner.step, hc]
    rw [Scanner.run_cons, hs, ih _ fun d hd => h d (by simp [hd]), Nat.ofDigitChars_cons]

theorem start_digit (before : List Token) {c : Char} (h : c.isDigit) :
    Scanner.start before c = ⟨before, .number (c.toNat - '0'.toNat)⟩ := by
  have hb : isBlank c = false := isBlank_of_isWordChar (by simp [isWordChar, Char.isAlphanum, h])
  have hl : isLetter c = false := isLetter_of_isDigit h
  simp [Scanner.start, hb, hl, h]

/-- The decimal digits of a number spell the number. -/
theorem spells_number (n : Nat) : Spells (Nat.toDigits 10 n) [.number n] := by
  intro before
  have hd : ∀ c ∈ Nat.toDigits 10 n, c.isDigit := fun c hc =>
    Nat.isDigit_of_mem_toDigits (by decide) (by decide) hc
  have hn : Nat.ofDigitChars 10 (Nat.toDigits 10 n) 0 = n := Nat.ofDigitChars_ten_toDigits
  cases hcs : Nat.toDigits 10 n with
  | nil => exact absurd hcs Nat.toDigits_ne_nil
  | cons c cs =>
    rw [hcs] at hd hn
    rw [Nat.ofDigitChars_cons] at hn
    have hs : Scanner.step ⟨before, .nothing⟩ c = ⟨before, .number (c.toNat - '0'.toNat)⟩ :=
      start_digit before (hd c (by simp))
    rw [Scanner.run_cons, hs, run_number before _ cs fun d h => hd d (by simp [h])]
    simpa [Scanner.settle] using hn

/-- An escaped character adds itself to a quotation. -/
theorem run_escape (before : List Token) (t : List Char) (c : Char) :
    Scanner.run ⟨before, .quoted t⟩ (Value.escape c) = ⟨before, .quoted (t ++ [c])⟩ := by
  unfold Value.escape
  split_ifs <;> simp_all [Scanner.step, unescape]

theorem run_flatMap_escape (before : List Token) (t cs : List Char) :
    Scanner.run ⟨before, .quoted t⟩ (cs.flatMap Value.escape) = ⟨before, .quoted (t ++ cs)⟩ := by
  induction cs generalizing t with
  | nil => simp
  | cons c cs ih =>
    rw [List.flatMap_cons, Scanner.run_append, run_escape, ih, List.append_assoc,
      List.singleton_append]

/-- A displayed string spells its quotation. -/
theorem spells_displayString (s : String) : Spells (Value.displayString s).toList [.quoted s] := by
  intro before
  have ho : Scanner.step ⟨before, .nothing⟩ '"' = ⟨before, .quoted []⟩ := rfl
  rw [Value.displayString, String.toList_ofList, Scanner.run_cons, ho, Scanner.run_append,
    run_flatMap_escape]
  simp [Scanner.step, Scanner.settle]

end TreeWalk.Source
