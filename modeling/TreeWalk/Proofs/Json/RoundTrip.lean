import TreeWalk.Json.Write
import TreeWalk.Proofs.Json.Nesting
import TreeWalk.Proofs.Json.Reading

/-! Values read back from their pretty text. A value is plain if it has no doubles and its integers have
at most sixty-four bits. The pretty text of a plain value is one of its spellings: strings are escaped,
integers are written with their digits, and only new lines and indentation stand between lexemes. -/

namespace TreeWalk.Json

/-! ### Strings -/

/-- A control character is read back from its four hexadecimal digits. -/
theorem hexUnit?_hexDigit :
    ∀ n < 0x20, hexUnit? '0' '0' (hexDigit (n / 16)) (hexDigit (n % 16)) = some n := by
  decide

theorem charText_escape (c : Char) : CharText c (escape c) := by
  unfold escape
  split_ifs with hq hb h1 h2 h3 h4 h5 hc
  · subst hq; exact .short rfl
  · subst hb; exact .short rfl
  · subst h1; exact .short rfl
  · subst h2; exact .short rfl
  · subst h3; exact .short rfl
  · subst h4; exact .short rfl
  · subst h5; exact .short rfl
  · have hleading : isLeading c.toNat = false := by
      simp only [isLeading, Bool.and_eq_false_iff, decide_eq_false_iff_not]
      omega
    have htrailing : isTrailing c.toNat = false := by
      simp only [isTrailing, Bool.and_eq_false_iff, decide_eq_false_iff_not]
      omega
    have hunit := CharText.unit (hexUnit?_hexDigit c.toNat hc) hleading htrailing
    rwa [Char.ofNat_toNat] at hunit
  · exact .plain hq hb hc

theorem quotedAs_quote (s : String) : QuotedAs s (quote s) := by
  have hchars (cs : List Char) : CharsText cs (cs.flatMap escape) := by
    induction cs with
    | nil => exact .nil
    | cons c cs ih => exact .cons (charText_escape c) ih
  exact ⟨_, hchars s.toList, rfl⟩

/-! ### Integers -/

/-- Only zero is written with a zero in front. -/
theorem toDigits_ne_zero_cons (n : Nat) (c : Char) (cs : List Char) :
    Nat.toDigits 10 n ≠ '0' :: c :: cs := by
  induction n using Nat.strongRecOn generalizing c cs with
  | _ n ih =>
    intro heq
    by_cases hn : n < 10
    · rw [Nat.toDigits_of_lt_base hn] at heq
      simp at heq
    · rw [Nat.toDigits_of_base_le (by decide) (by omega)] at heq
      cases hds : Nat.toDigits 10 (n / 10) with
      | nil => exact Nat.toDigits_ne_nil hds
      | cons d ds =>
        rw [hds, List.cons_append, List.cons.injEq] at heq
        obtain ⟨rfl, -⟩ := heq
        cases ds with
        | nil =>
          have hvalue : Nat.ofDigitChars 10 (Nat.toDigits 10 (n / 10)) 0 = n / 10 :=
            Nat.ofDigitChars_ten_toDigits
          rw [hds] at hvalue
          have hzero : n / 10 = 0 := hvalue.symm
          omega
        | cons e es => exact ih (n / 10) (by omega) e es hds

theorem isDigits_toDigits (n : Nat) : NumberText.IsDigits (Nat.toDigits 10 n) :=
  ⟨Nat.toDigits_ne_nil, fun _ hc => Nat.isDigit_of_mem_toDigits (by decide) (by decide) hc⟩

theorem natValue_toDigits (n : Nat) : NumberText.natValue (Nat.toDigits 10 n) = n := by
  have hvalue : Nat.ofDigitChars 10 (Nat.toDigits 10 n) 0 = n := Nat.ofDigitChars_ten_toDigits
  rwa [Nat.ofDigitChars_eq_foldl] at hvalue

/-- Whether an integer has at most sixty-four bits, signed if it is negative. -/
def fits (n : Int) : Prop := Int64.minValue.toInt ≤ n ∧ n < UInt64.size

instance (n : Int) : Decidable (fits n) := inferInstanceAs (Decidable (_ ∧ _))

/-- The text of an integer is a literal with its value. -/
theorem scalarText_writeInt {n : Int} (hn : fits n) : ScalarText (.integer n) (writeInt n) := by
  have hliteral (negative : Bool) (m : Nat) : (⟨negative, Nat.toDigits 10 m, [], none⟩ : NumberText).WrittenAs
      ((if negative then ['-'] else []) ++ Nat.toDigits 10 m) :=
    ⟨isDigits_toDigits m, toDigits_ne_zero_cons m, [], [], .none, .none, by simp⟩
  unfold writeInt
  split_ifs with hneg
  · refine .number (hliteral true n.natAbs) ?_
    have habs : ((n.natAbs : Nat) : Int) = -n := by omega
    have hpos : 0 < n.natAbs := by omega
    have hmin : Int64.minValue.toInt ≤ -(n.natAbs : Int) := by rw [habs, Int.neg_neg]; exact hn.1
    have hvalue : NumberText.toInt? ⟨true, Nat.toDigits 10 n.natAbs, [], none⟩ = some n := by
      simp only [NumberText.toInt?, natValue_toDigits]
      rw [if_pos trivial, if_pos ⟨hpos, hmin⟩, habs, Int.neg_neg]
    rw [NumberText.value?, hvalue]
  · refine .number (hliteral false n.toNat) ?_
    have hnat : ((n.toNat : Nat) : Int) = n := by omega
    have hlt : n.toNat < UInt64.size := by
      have := hn.2
      omega
    have hvalue : NumberText.toInt? ⟨false, Nat.toDigits 10 n.toNat, [], none⟩ = some n := by
      simp [NumberText.toInt?, natValue_toDigits, hnat, hlt]
    rw [NumberText.value?, hvalue]

/-! ### Values -/

/-- No doubles, and no integers of more than sixty-four bits. -/
inductive IsPlain : Json → Prop where
  | null : IsPlain .null
  | bool (b : Bool) : IsPlain (.bool b)
  | integer {n : Int} (h : fits n) : IsPlain (.integer n)
  | string (s : String) : IsPlain (.string s)
  | array {items : List Json} (h : ∀ j ∈ items, IsPlain j) : IsPlain (.array items)
  | object {members : List (String × Json)} (h : ∀ m ∈ members, IsPlain m.2) : IsPlain (.object members)

@[simp] theorem isPlain_array_iff {items : List Json} : IsPlain (.array items) ↔ ∀ j ∈ items, IsPlain j :=
  ⟨fun | .array h => h, .array⟩

@[simp] theorem isPlain_object_iff {members : List (String × Json)} :
    IsPlain (.object members) ↔ ∀ m ∈ members, IsPlain m.2 :=
  ⟨fun | .object h => h, .object⟩

mutual

/-- The lexemes in the pretty text of a value. -/
def lexemes : Json → List Lexeme
  | .null => [['n', 'u', 'l', 'l']]
  | .bool true => [['t', 'r', 'u', 'e']]
  | .bool false => [['f', 'a', 'l', 's', 'e']]
  | .integer n => [writeInt n]
  | .double x => [writeDouble x]
  | .string s => [quote s]
  | .array items => bracketed '[' ']' (itemsLexemes items)
  | .object members => bracketed '\x7b' '\x7d' (membersLexemes members)

def itemsLexemes : List Json → List (List Lexeme)
  | [] => []
  | item :: rest => item.lexemes :: itemsLexemes rest

def membersLexemes : List (String × Json) → List (List Lexeme)
  | [] => []
  | (key, value) :: rest => (quote key :: [':'] :: value.lexemes) :: membersLexemes rest

end

theorem itemsLexemes_eq (js : List Json) : itemsLexemes js = js.map lexemes := by
  induction js with
  | nil => rfl
  | cons j js ih => rw [itemsLexemes, ih, List.map_cons]

/-- A member as it is written in pretty text. -/
def prettyMember (m : String × Json) : Member := ⟨m.1, quote m.1, m.2, m.2.lexemes⟩

theorem membersLexemes_eq (ms : List (String × Json)) :
    membersLexemes ms = (ms.map prettyMember).map Member.lexemes := by
  induction ms with
  | nil => rfl
  | cons m ms ih => rw [membersLexemes, ih, List.map_cons, List.map_cons]; rfl

/-- The lexemes of a plain value denote it. -/
theorem IsPlain.spelling {j : Json} (h : j.IsPlain) : Spelling j j.lexemes := by
  induction h with
  | null => exact .scalar .null
  | bool b => cases b <;> exact .scalar (by constructor)
  | integer hn => exact .scalar (scalarText_writeInt hn)
  | string s => exact .scalar (.string (quotedAs_quote s))
  | @array items _ ih =>
    have hitems : ∀ i ∈ items.map fun j => (j, j.lexemes), Spelling i.1 i.2 := List.forall_mem_map.2 ih
    rw [lexemes, itemsLexemes_eq]
    simpa [Function.comp_def] using Spelling.array hitems
  | @object members _ ih =>
    have hnames : ∀ m ∈ members.map prettyMember, QuotedAs m.key m.name :=
      List.forall_mem_map.2 fun m _ => quotedAs_quote m.1
    have hvalues : ∀ m ∈ members.map prettyMember, Spelling m.value m.body := List.forall_mem_map.2 ih
    rw [lexemes, membersLexemes_eq]
    simpa [Function.comp_def, prettyMember, Member.entry] using Spelling.object hnames hvalues

/-! ### Pretty text -/

theorem isBlanks_newLine (level : Nat) : IsBlanks (newLine level) := by
  refine List.forall_mem_cons.2 ⟨rfl, fun c hc => ?_⟩
  rw [List.eq_of_mem_replicate hc]
  rfl

theorem lexemes_ne_nil (j : Json) : j.lexemes ≠ [] := by
  cases j with
  | bool b => cases b <;> simp [lexemes]
  | _ => simp [lexemes, bracketed]

/-- The pretty text of a value consists of its lexemes. -/
def IsSpaced (j : Json) : Prop := ∀ level, Spaced j.lexemes (writePretty level j)

theorem trail_writePrettyItems {js : List Json} (h : ∀ j ∈ js, IsSpaced j) (level : Nat) :
    Trail ']' (itemsLexemes js) (writePrettyItems level js) := by
  induction js with
  | nil => exact .closed (isBlanks_newLine level)
  | cons j js ih =>
    have hj := (h j (by simp) (level + 1)).blanks_append j.lexemes_ne_nil (isBlanks_newLine (level + 1))
    exact .comma isBlanks_nil hj (ih fun k hk => h k (by simp [hk]))

theorem spaced_member {j : Json} (h : IsSpaced j) (key : String) (level : Nat) :
    Spaced (quote key :: [':'] :: j.lexemes)
      (newLine (level + 1) ++ quote key ++ ':' :: ' ' :: writePretty (level + 1) j) := by
  have hspace : IsBlanks [' '] := by simp [IsBlanks, isBlank]
  have hj := (h (level + 1)).blanks_append j.lexemes_ne_nil hspace
  have hkey := (hj.cons_append [':']).cons_append (quote key)
  simpa using hkey.blanks_append (by simp) (isBlanks_newLine (level + 1))

theorem trail_writePrettyMembers {ms : List (String × Json)} (h : ∀ m ∈ ms, IsSpaced m.2) (level : Nat) :
    Trail '\x7d' (membersLexemes ms) (writePrettyMembers level ms) := by
  induction ms with
  | nil => exact .closed (isBlanks_newLine level)
  | cons m ms ih =>
    have hm := spaced_member (h m (by simp)) m.1 level
    have htrail := Trail.comma isBlanks_nil hm (ih fun k hk => h k (by simp [hk]))
    simpa [membersLexemes, writePrettyMembers] using htrail

theorem IsPlain.isSpaced {j : Json} (h : j.IsPlain) : IsSpaced j := by
  induction h with
  | null => exact fun _ => spaced_singleton _
  | bool b => cases b <;> exact fun _ => spaced_singleton _
  | integer _ => exact fun _ => spaced_singleton _
  | string s => exact fun _ => spaced_singleton _
  | @array items _ ih =>
    intro level
    cases items with
    | nil => exact (spaced_singleton [']']).cons_append ['[']
    | cons j js =>
      have hj := (ih j (by simp) (level + 1)).blanks_append j.lexemes_ne_nil (isBlanks_newLine (level + 1))
      have hjs := trail_writePrettyItems (fun k hk => ih k (List.mem_cons_of_mem j hk)) level
      exact (hjs.spaced hj).cons_append ['[']
  | @object members _ ih =>
    intro level
    cases members with
    | nil => exact (spaced_singleton ['\x7d']).cons_append ['\x7b']
    | cons m ms =>
      have hm := spaced_member (ih m (by simp)) m.1 level
      have hms := trail_writePrettyMembers (fun k hk => ih k (List.mem_cons_of_mem m hk)) level
      simpa [writePretty, lexemes, membersLexemes, bracketed] using (hms.spaced hm).cons_append ['\x7b']

/-- The brackets and braces in the text of a plain value nest as deep as in the value. -/
theorem IsPlain.nestingDepth_pretty {j : Json} (hp : j.IsPlain) : nestingDepth j.pretty = j.depth := by
  refine hp.spelling.nestingDepth_eq (hp.isSpaced 0) isBlanks_nil ?_
  rw [pretty, String.toList_ofList, List.append_nil]

end TreeWalk.Json
