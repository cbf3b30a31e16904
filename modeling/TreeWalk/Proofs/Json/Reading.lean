import TreeWalk.Proofs.Json.Spelling

/-! Values read from their spellings, and passed over. Whatever the spelling of a value is, it is read if it
nests at most as deep as the reader allows, and is refused otherwise. A value that is only passed over may
nest as deep as it likes. The statements are about a value before any text that does not go on with a
number, so that they carry through arrays and objects. -/

namespace TreeWalk.Json

theorem map_eq_ok {α β ε : Type} {f : α → β} {x : Except ε α} {b : β} (h : x.map f = .ok b) :
    ∃ a, x = .ok a ∧ f a = b := by
  cases x with
  | error e => cases h
  | ok a => exact ⟨a, rfl, Except.ok.inj h⟩

theorem bind_eq_ok {α β ε : Type} {f : α → Except ε β} {x : Except ε α} {b : β} (h : x.bind f = .ok b) :
    ∃ a, x = .ok a ∧ f a = .ok b := by
  cases x with
  | error e => cases h
  | ok a => exact ⟨a, rfl, h⟩

/-! ### Reading values -/

/-- A value that is neither an array nor an object is read by its first character. -/
theorem readValue_scalar {c : Char} (ha : c ≠ '[') (ho : c ≠ '\x7b')
    (fuel d : Nat) {cs : List Char} {rest : List Char} (h : skipBlank cs = c :: rest) :
    readValue (fuel + 1) d cs = readScalar c rest := by
  rw [readValue, h]
  split <;> simp_all

def itemStep (d fuel : Nat) (acc : List Json) (cs : List Char) : Except Flaw (List Json × List Char) :=
  (readValue fuel d cs).map fun r => (r.1 :: acc, r.2)

theorem isLoop_readItem (d : Nat) :
    IsLoop ']' (itemStep d) (fun acc rest => .ok (.array acc.reverse, rest)) fun fuel => readItem fuel d where
  failed {fuel acc cs e} h := by
    rw [readItem]
    cases hread : readValue fuel d cs <;> simp_all [itemStep, Except.map, bind, Except.bind]
  closed {fuel acc acc' cs bs rest} hb h := by
    obtain ⟨⟨item, after⟩, hread, heq⟩ := map_eq_ok h
    obtain ⟨rfl, rfl⟩ := Prod.mk.inj heq
    rw [readItem, hread]
    simp only [bind, Except.bind, hb.skipBlank_cons (c := ']') rfl]
  comma {fuel acc acc' cs bs rest} hb h := by
    obtain ⟨⟨item, after⟩, hread, heq⟩ := map_eq_ok h
    obtain ⟨rfl, rfl⟩ := Prod.mk.inj heq
    rw [readItem, hread]
    simp only [bind, Except.bind, hb.skipBlank_cons (c := ',') rfl]

def memberStep (d fuel : Nat) (acc : List (String × Json)) (cs : List Char) :
    Except Flaw (List (String × Json) × List Char) :=
  (readKey cs).bind fun k => (readValue fuel d k.2).map fun r => ((k.1, r.1) :: acc, r.2)

theorem isLoop_readMember (d : Nat) :
    IsLoop '\x7d' (memberStep d) (fun acc rest => .ok (.object acc.reverse, rest))
      fun fuel => readMember fuel d where
  failed {fuel acc cs e} h := by
    rw [readMember]
    cases hkey : readKey cs with
    | error e' => simp_all [memberStep, bind, Except.bind]
    | ok k =>
      cases hread : readValue fuel d k.2 <;> simp_all [memberStep, Except.map, bind, Except.bind]
  closed {fuel acc acc' cs bs rest} hb h := by
    obtain ⟨⟨key, after⟩, hkey, h⟩ := bind_eq_ok h
    obtain ⟨⟨value, after⟩, hread, heq⟩ := map_eq_ok h
    obtain ⟨rfl, rfl⟩ := Prod.mk.inj heq
    rw [readMember, hkey]
    simp only [bind, Except.bind, hread, hb.skipBlank_cons (c := '\x7d') rfl]
  comma {fuel acc acc' cs bs rest} hb h := by
    obtain ⟨⟨key, after⟩, hkey, h⟩ := bind_eq_ok h
    obtain ⟨⟨value, after⟩, hread, heq⟩ := map_eq_ok h
    obtain ⟨rfl, rfl⟩ := Prod.mk.inj heq
    rw [readMember, hkey]
    simp only [bind, Except.bind, hread, hb.skipBlank_cons (c := ',') rfl]

theorem IsBlanks.readColon {bs : List Char} (h : IsBlanks bs) (cs : List Char) :
    readColon (bs ++ ':' :: cs) = .ok cs := by
  rw [Json.readColon, h.skipBlank_cons rfl]
  rfl

/-- The key of a member is read, or passed over, up to the value. -/
theorem Spaced.readName {key : String} {name : Lexeme} (hn : QuotedAs key name) {ls : List Lexeme}
    {cs : List Char} (h : Spaced (name :: [':'] :: ls) cs) :
    ∃ bs ds, Spaced ls ds ∧ ds.length < cs.length ∧ IsBlanks bs ∧ ∀ rest,
      Json.readName (cs ++ rest) = .ok (key, bs ++ ':' :: (ds ++ rest)) ∧
        skipKey (cs ++ rest) = .ok (ds ++ rest) := by
  obtain ⟨bs, es, hb, hes, rfl⟩ := h.of_cons
  obtain ⟨bs', ds, hb', hds, rfl⟩ := hes.of_cons
  obtain ⟨ts, rfl, hts⟩ := hn.reads
  refine ⟨bs', ds, hds, ?_, hb', fun rest => ?_⟩
  · simp only [List.length_append, List.length_cons]
    omega
  · have hread := hts (bs' ++ ':' :: (ds ++ rest))
    have hblank : Json.skipBlank (bs ++ ('"' :: ts ++ (bs' ++ ([':'] ++ ds))) ++ rest) =
        '"' :: (ts ++ (bs' ++ ':' :: (ds ++ rest))) := by
      rw [List.append_assoc, hb.skipBlank]
      simp only [List.cons_append, List.append_assoc, List.nil_append]
      exact Json.skipBlank_cons rfl _
    constructor
    · rw [Json.readName, hblank]
      exact hread.1
    · rw [skipKey, hblank]
      simp only [hread.2, bind, Except.bind, hb'.readColon]

/-- A value is read from its text before any text that does not go on with a number, unless it nests
deeper than allowed. -/
def ReadsAs (j : Json) (ls : List Lexeme) : Prop :=
  ∀ cs fuel d rest, Spaced ls cs → Stops rest → 2 * cs.length ≤ fuel →
    readValue fuel d (cs ++ rest) = if j.depth ≤ d then .ok (j, rest) else .error .malformed

/-- Every spelling starts with a character that is neither a blank nor a closing bracket. -/
theorem Spelling.head {j : Json} {ls : List Lexeme} (h : Spelling j ls) :
    ∃ c l more, ls = (c :: l) :: more ∧ isBlank c = false ∧ c ≠ ']' := by
  cases h with
  | scalar h =>
    obtain ⟨c, cs, rfl, hb, -, hc, -⟩ := h.reads
    exact ⟨c, cs, [], rfl, hb, hc⟩
  | array _ => exact ⟨'[', [], _, rfl, rfl, by decide⟩
  | object _ _ => exact ⟨'\x7b', [], _, rfl, rfl, by decide⟩

theorem readsAs_scalar {j : Json} {l : Lexeme} (h : ScalarText j l) : ReadsAs j [l] := by
  intro cs fuel d rest hcs hrest hf
  obtain ⟨c, l, rfl, hb, ha, -, ho, hread⟩ := h.reads
  obtain ⟨bs, hbs, rfl⟩ := hcs.of_singleton
  have hskip : skipBlank (bs ++ c :: l ++ rest) = c :: (l ++ rest) := by
    rw [List.append_assoc, List.cons_append, hbs.skipBlank_cons hb]
  obtain ⟨fuel, rfl⟩ : ∃ f, fuel = f + 1 := ⟨fuel - 1, by simp at hf; omega⟩
  rw [readValue_scalar ha ho fuel d hskip, (hread rest hrest).1, h.depth, if_pos (Nat.zero_le d)]

/-- The items of an array after its bracket. -/
theorem readItem_items {item : Json × List Lexeme} {more : List (Json × List Lexeme)}
    (h : ∀ i ∈ item :: more, ReadsAs i.1 i.2) {as ds : List Char} (hp : Spaced item.2 as)
    (ht : Trail ']' (more.map (·.2)) ds) {fuel : Nat} (hf : 2 * (as.length + ds.length) < fuel) (d : Nat)
    (rest : List Char) :
    readItem fuel d [] (as ++ (ds ++ rest)) =
      if ∀ i ∈ item :: more, i.1.depth ≤ d then .ok (.array ((item :: more).map (·.1)), rest)
      else .error .malformed := by
  refine (isLoop_readItem d).run (.inl rfl) (fun i : Json × List Lexeme => i.2) (fun i => i.1.depth)
    (k := 2) (by decide) (fun acc left => (∀ i ∈ left, ReadsAs i.1 i.2) ∧
      acc.reverse ++ left.map (·.1) = (item :: more).map (·.1)) ?_ ?_ ⟨h, rfl⟩ hp ht hf rest
  · rintro acc i left ⟨hleft, hacc⟩
    refine ⟨i.1 :: acc, ⟨fun k hk => hleft k (List.mem_cons_of_mem i hk), by simpa using hacc⟩, ?_⟩
    intro fuel as rest has hrest hf
    rw [itemStep, hleft i List.mem_cons_self as fuel d rest has hrest hf]
    split_ifs <;> rfl
  · rintro acc rest ⟨-, hacc⟩
    rw [← hacc, List.map_nil, List.append_nil]

theorem readsAs_array {items : List (Json × List Lexeme)} (hs : ∀ i ∈ items, Spelling i.1 i.2)
    (h : ∀ i ∈ items, ReadsAs i.1 i.2) :
    ReadsAs (.array (items.map (·.1))) (bracketed '[' ']' (items.map (·.2))) := by
  intro cs fuel d rest hcs hrest hf
  cases items with
  | nil =>
    obtain ⟨hlength, htext⟩ := hcs.bracketed_nil rfl rfl
    obtain ⟨after, hopen, hclose⟩ := htext rest
    obtain ⟨fuel, rfl⟩ : ∃ f, fuel = f + 1 := ⟨fuel - 1, by omega⟩
    rw [readValue, hopen]
    cases d with
    | zero => rfl
    | succ d =>
      simp only [hclose]
      simp [depth, itemsDepth]
  | cons item more =>
    obtain ⟨c, l, ls, hls, hc, hne⟩ := (hs item (by simp)).head
    obtain ⟨es, ds, hp, ht, hlength, htext⟩ := hcs.bracketed_cons rfl hls hc
    obtain ⟨after, hopen, hskip⟩ := htext rest
    obtain ⟨fuel, rfl⟩ : ∃ f, fuel = f + 1 := ⟨fuel - 1, by omega⟩
    rw [readValue, hopen]
    cases d with
    | zero => rfl
    | succ d =>
      have hfuel : 2 * ((c :: es).length + ds.length) < fuel := by omega
      have hitems := readItem_items h hp ht hfuel d rest
      simp only [hskip]
      split
      · next heq => exact absurd (List.cons.inj heq).1 hne
      · next heq => cases heq
      · rw [← List.cons_append, hitems]
        simp only [depth, Nat.add_le_add_iff_right, itemsDepth_le_iff, List.forall_mem_map]

/-- The members of an object after its brace. -/
theorem readMember_members {member : Member} {more : List Member}
    (hn : ∀ m ∈ member :: more, QuotedAs m.key m.name) (h : ∀ m ∈ member :: more, ReadsAs m.value m.body)
    {as ds : List Char} (hp : Spaced member.lexemes as) (ht : Trail '\x7d' (more.map Member.lexemes) ds)
    {fuel : Nat} (hf : 2 * (as.length + ds.length) < fuel) (d : Nat) (rest : List Char) :
    readMember fuel d [] (as ++ (ds ++ rest)) =
      if ∀ m ∈ member :: more, m.value.depth ≤ d then .ok (.object ((member :: more).map Member.entry), rest)
      else .error .malformed := by
  refine (isLoop_readMember d).run (.inr rfl) Member.lexemes (fun m => m.value.depth) (k := 2) (by decide)
    (fun acc left => (∀ m ∈ left, QuotedAs m.key m.name ∧ ReadsAs m.value m.body) ∧
      acc.reverse ++ left.map Member.entry = (member :: more).map Member.entry) ?_ ?_
    ⟨fun m hm => ⟨hn m hm, h m hm⟩, rfl⟩ hp ht hf rest
  · rintro acc m left ⟨hleft, hacc⟩
    refine ⟨m.entry :: acc, ⟨fun k hk => hleft k (List.mem_cons_of_mem m hk), by simpa using hacc⟩, ?_⟩
    intro fuel as rest has hrest hf
    obtain ⟨hname, hvalue⟩ := hleft m List.mem_cons_self
    obtain ⟨bs, es, hes, hlength, hb, hread⟩ := has.readName hname
    have hkey : readKey (as ++ rest) = .ok (m.key, es ++ rest) := by
      simp only [readKey, (hread rest).1, bind, Except.bind, hb.readColon, pure, Except.pure]
    rw [memberStep, hkey]
    simp only [Except.bind]
    rw [hvalue es fuel d rest hes hrest (by omega)]
    split_ifs <;> rfl
  · rintro acc rest ⟨-, hacc⟩
    rw [← hacc, List.map_nil, List.append_nil]

theorem Member.head {m : Member} (h : QuotedAs m.key m.name) :
    ∃ l, m.lexemes = ('"' :: l) :: [':'] :: m.body := by
  obtain ⟨l, hl, -⟩ := h.reads
  exact ⟨l, by rw [Member.lexemes, hl]⟩

theorem readsAs_object {members : List Member} (hn : ∀ m ∈ members, QuotedAs m.key m.name)
    (h : ∀ m ∈ members, ReadsAs m.value m.body) :
    ReadsAs (.object (members.map Member.entry)) (bracketed '\x7b' '\x7d' (members.map Member.lexemes)) := by
  intro cs fuel d rest hcs hrest hf
  cases members with
  | nil =>
    obtain ⟨hlength, htext⟩ := hcs.bracketed_nil rfl rfl
    obtain ⟨after, hopen, hclose⟩ := htext rest
    obtain ⟨fuel, rfl⟩ : ∃ f, fuel = f + 1 := ⟨fuel - 1, by omega⟩
    rw [readValue, hopen]
    cases d with
    | zero => rfl
    | succ d =>
      simp only [hclose]
      simp [depth, membersDepth]
  | cons member more =>
    obtain ⟨l, hl⟩ := Member.head (hn member (by simp))
    obtain ⟨es, ds, hp, ht, hlength, htext⟩ := hcs.bracketed_cons rfl hl rfl
    obtain ⟨after, hopen, hskip⟩ := htext rest
    obtain ⟨fuel, rfl⟩ : ∃ f, fuel = f + 1 := ⟨fuel - 1, by omega⟩
    rw [readValue, hopen]
    cases d with
    | zero => rfl
    | succ d =>
      have hfuel : 2 * (('"' :: es).length + ds.length) < fuel := by omega
      have hmembers := readMember_members hn h hp ht hfuel d rest
      rw [List.cons_append] at hmembers
      simp only [hskip]
      refine hmembers.trans ?_
      simp only [depth, Nat.add_le_add_iff_right, membersDepth_le_iff, List.forall_mem_map, Member.entry]

/-- Every spelling of a value is read as the value. -/
theorem Spelling.readsAs {j : Json} {ls : List Lexeme} (h : Spelling j ls) : ReadsAs j ls := by
  induction h with
  | scalar h => exact readsAs_scalar h
  | array h ih => exact readsAs_array h ih
  | object hn _ ih => exact readsAs_object hn ih

/-- A value is read from the start of a text, if it nests at most as deep as allowed. -/
theorem Spelling.read {j : Json} {ls : List Lexeme} (h : Spelling j ls) {cs : List Char} (hcs : Spaced ls cs)
    (d : Nat) {rest : List Char} (hrest : Stops rest) :
    read d (cs ++ rest) = if j.depth ≤ d then .ok (j, rest) else .error .malformed := by
  refine h.readsAs cs _ d rest hcs hrest ?_
  rw [List.length_append]
  omega

/-! ### Passing over values -/

/-- Before a text that does not go on with a number the value is passed over. Every character pays for a
unit of fuel. -/
def PassesOver (ls : List Lexeme) : Prop :=
  ∀ cs fuel enclosing rest, Spaced ls cs → Stops rest → cs.length ≤ fuel →
    ∃ fuel', fuel ≤ fuel' + cs.length ∧ skipValue fuel enclosing (cs ++ rest) = skipRest fuel' enclosing rest

theorem passesOver_scalar {j : Json} {l : Lexeme} (h : ScalarText j l) : PassesOver [l] := by
  intro cs fuel enclosing rest hcs hrest hf
  obtain ⟨c, l, rfl, hb, ha, -, ho, hread⟩ := h.reads
  obtain ⟨bs, hbs, rfl⟩ := hcs.of_singleton
  have hskip : skipBlank (bs ++ c :: l ++ rest) = c :: (l ++ rest) := by
    rw [List.append_assoc, List.cons_append, hbs.skipBlank_cons hb]
  obtain ⟨fuel, rfl⟩ : ∃ f, fuel = f + 1 := ⟨fuel - 1, by simp at hf; omega⟩
  refine ⟨fuel, by simp; omega, ?_⟩
  rw [skipValue, hskip]
  split
  · next heq => cases heq
  · next heq => exact absurd (List.cons.inj heq).1 ha
  · next heq => exact absurd (List.cons.inj heq).1 ho
  · next heq =>
    obtain ⟨rfl, rfl⟩ := List.cons.inj heq
    rw [(hread rest hrest).2]
    rfl

/-- The items of an array after its bracket. -/
theorem skipValue_items {p : List Lexeme} {ps : List (List Lexeme)} (h : ∀ q ∈ p :: ps, PassesOver q)
    {as ds : List Char} (hp : Spaced p as) (ht : Trail ']' ps ds) {fuel : Nat}
    (hf : as.length + ds.length ≤ fuel) (enclosing : List Enclosure) (rest : List Char) :
    ∃ fuel', fuel ≤ fuel' + (as.length + ds.length) ∧
      skipValue fuel (.array :: enclosing) (as ++ (ds ++ rest)) = skipRest fuel' enclosing rest := by
  induction ht generalizing p as fuel with
  | @closed bs hb =>
    have htrail : Trail ']' [] (bs ++ [']']) := .closed hb
    have hstops := htrail.stops (.inl rfl) rest
    simp only [List.length_append, List.length_singleton] at hf
    obtain ⟨f, hle, hpass⟩ := h p (by simp) as fuel (.array :: enclosing) _ hp hstops (by omega)
    obtain ⟨f, rfl⟩ : ∃ g, f = g + 1 := ⟨f - 1, by omega⟩
    refine ⟨f, by simp; omega, ?_⟩
    rw [hpass, skipRest, List.append_assoc, List.singleton_append, hb.skipBlank_cons rfl]
    rfl
  | @comma q ps bs qs cs hb hq ht ih =>
    have hstops := Trail.stops (.inl rfl) (.comma hb hq ht) rest
    simp only [List.length_append, List.length_cons] at hf
    obtain ⟨f, hle, hpass⟩ := h p (by simp) as fuel (.array :: enclosing) _ hp hstops (by omega)
    obtain ⟨f, rfl⟩ : ∃ g, f = g + 1 := ⟨f - 1, by omega⟩
    have hfuel : qs.length + cs.length ≤ f := by omega
    obtain ⟨f', hle', hmore⟩ := ih (fun r hr => h r (List.mem_cons_of_mem p hr)) hq hfuel
    refine ⟨f', by simp; omega, ?_⟩
    rw [hpass, skipRest, List.append_assoc, List.cons_append, hb.skipBlank_cons rfl, ← hmore,
      List.append_assoc]
    rfl

/-- The members of an object after its brace. -/
theorem skipValue_members {member : Member} {more : List Member}
    (hn : ∀ m ∈ member :: more, QuotedAs m.key m.name) (h : ∀ m ∈ member :: more, PassesOver m.body)
    {as ds : List Char} (hp : Spaced member.lexemes as) (ht : Trail '\x7d' (more.map Member.lexemes) ds)
    {fuel : Nat} (hf : as.length + ds.length ≤ fuel) (enclosing : List Enclosure) (rest : List Char) :
    ∃ fuel', fuel ≤ fuel' + (as.length + ds.length) ∧
      (skipKey (as ++ (ds ++ rest)) >>= skipValue fuel (.object :: enclosing)) =
        skipRest fuel' enclosing rest := by
  induction more generalizing member as ds fuel with
  | nil =>
    have hstops := ht.stops (.inr rfl) rest
    obtain ⟨_, es, hes, hlength, -, hread⟩ := hp.readName (hn member (by simp))
    obtain ⟨f, hle, hpass⟩ := h member (by simp) es fuel (.object :: enclosing) _ hes hstops (by omega)
    cases ht with
    | @closed bs hb =>
      simp only [List.length_append, List.length_singleton] at hf
      obtain ⟨f, rfl⟩ : ∃ g, f = g + 1 := ⟨f - 1, by omega⟩
      refine ⟨f, by simp; omega, ?_⟩
      simp only [(hread _).2, bind, Except.bind]
      rw [hpass, skipRest, List.append_assoc, List.singleton_append, hb.skipBlank_cons rfl]
      rfl
  | cons next more ih =>
    have hstops := ht.stops (.inr rfl) rest
    obtain ⟨_, es, hes, hlength, -, hread⟩ := hp.readName (hn member (by simp))
    obtain ⟨f, hle, hpass⟩ := h member (by simp) es fuel (.object :: enclosing) _ hes hstops (by omega)
    cases ht with
    | @comma _ _ bs qs cs hb hq ht =>
      simp only [List.length_append, List.length_cons] at hf
      obtain ⟨f, rfl⟩ : ∃ g, f = g + 1 := ⟨f - 1, by omega⟩
      have hfuel : qs.length + cs.length ≤ f := by omega
      obtain ⟨f', hle', hmore⟩ := ih (fun m hm => hn m (List.mem_cons_of_mem _ hm))
        (fun m hm => h m (List.mem_cons_of_mem _ hm)) hq ht hfuel
      refine ⟨f', by simp; omega, ?_⟩
      simp only [(hread _).2, bind, Except.bind]
      rw [hpass, skipRest, List.append_assoc, List.cons_append, hb.skipBlank_cons rfl, ← hmore,
        List.append_assoc]
      rfl

theorem passesOver_array {items : List (Json × List Lexeme)} (hs : ∀ i ∈ items, Spelling i.1 i.2)
    (h : ∀ i ∈ items, PassesOver i.2) : PassesOver (bracketed '[' ']' (items.map (·.2))) := by
  intro cs fuel enclosing rest hcs hrest hf
  cases items with
  | nil =>
    obtain ⟨hlength, htext⟩ := hcs.bracketed_nil rfl rfl
    obtain ⟨after, hopen, hclose⟩ := htext rest
    obtain ⟨fuel, rfl⟩ : ∃ f, fuel = f + 1 := ⟨fuel - 1, by omega⟩
    refine ⟨fuel, by omega, ?_⟩
    rw [skipValue, hopen]
    simp only [hclose]
  | cons item more =>
    obtain ⟨c, l, ls, hls, hc, hne⟩ := (hs item (by simp)).head
    obtain ⟨es, ds, hp, ht, hlength, htext⟩ := hcs.bracketed_cons rfl hls hc
    obtain ⟨after, hopen, hskip⟩ := htext rest
    obtain ⟨fuel, rfl⟩ : ∃ f, fuel = f + 1 := ⟨fuel - 1, by omega⟩
    have hfuel : (c :: es).length + ds.length ≤ fuel := by omega
    have hparts : ∀ q ∈ item.2 :: more.map (·.2), PassesOver q :=
      List.forall_mem_cons.2 ⟨h item (by simp), List.forall_mem_map.2 fun i hi => h i (by simp [hi])⟩
    obtain ⟨f, hle, hpass⟩ := skipValue_items hparts hp ht hfuel enclosing rest
    refine ⟨f, by omega, ?_⟩
    rw [skipValue, hopen]
    simp only [hskip]
    split
    · next heq => exact absurd (List.cons.inj heq).1 hne
    · next heq => cases heq
    · exact hpass

theorem passesOver_object {members : List Member} (hn : ∀ m ∈ members, QuotedAs m.key m.name)
    (h : ∀ m ∈ members, PassesOver m.body) :
    PassesOver (bracketed '\x7b' '\x7d' (members.map Member.lexemes)) := by
  intro cs fuel enclosing rest hcs hrest hf
  cases members with
  | nil =>
    obtain ⟨hlength, htext⟩ := hcs.bracketed_nil rfl rfl
    obtain ⟨after, hopen, hclose⟩ := htext rest
    obtain ⟨fuel, rfl⟩ : ∃ f, fuel = f + 1 := ⟨fuel - 1, by omega⟩
    refine ⟨fuel, by omega, ?_⟩
    rw [skipValue, hopen]
    simp only [hclose]
  | cons member more =>
    obtain ⟨l, hl⟩ := Member.head (hn member (by simp))
    obtain ⟨es, ds, hp, ht, hlength, htext⟩ := hcs.bracketed_cons rfl hl rfl
    obtain ⟨after, hopen, hskip⟩ := htext rest
    obtain ⟨fuel, rfl⟩ : ∃ f, fuel = f + 1 := ⟨fuel - 1, by omega⟩
    have hfuel : ('"' :: es).length + ds.length ≤ fuel := by omega
    obtain ⟨f, hle, hpass⟩ := skipValue_members hn h hp ht hfuel enclosing rest
    refine ⟨f, by omega, ?_⟩
    rw [skipValue, hopen]
    simp only [hskip]
    exact hpass

/-- Every spelling of a value is passed over. -/
theorem Spelling.passesOver {j : Json} {ls : List Lexeme} (h : Spelling j ls) : PassesOver ls := by
  induction h with
  | scalar h => exact passesOver_scalar h
  | array h ih => exact passesOver_array h ih
  | object hn _ ih => exact passesOver_object hn ih

/-- A value at the start of a text is passed over, however deep it nests. -/
theorem Spelling.skip {j : Json} {ls : List Lexeme} (h : Spelling j ls) {cs : List Char} (hcs : Spaced ls cs)
    {rest : List Char} (hrest : Stops rest) : skip (cs ++ rest) = .ok rest := by
  have hlength : cs.length ≤ (cs ++ rest).length + 1 := by
    rw [List.length_append]
    omega
  obtain ⟨fuel, -, hpass⟩ := h.passesOver cs _ [] rest hcs hrest hlength
  rw [Json.skip, hpass]
  cases fuel <;> rfl

end TreeWalk.Json
