import TreeWalk.Proofs.Json.Nesting
import TreeWalk.Proofs.Json.Reading
import TreeWalk.Proofs.Tree.Form
import TreeWalk.Tree.Load

/-! Programs read from text. Top-level statements are read one after the other and not as one value, so
what is known of values is carried through the list of statements and through the parts of each of them.
Every bracket and every brace on the way takes one from the depth that is left, so that the limit is met
exactly; only members of a program that are passed over may go beyond it. -/

namespace TreeWalk.Load

open Json (Lexeme Spaced Spelling QuotedAs IsBlanks Stops Trail Member IsLoop bracketed skipBlank)

/-! ### Outermost nodes -/

section Outermost

variable {κ : Type} {family : Family κ} {kind : κ}

/-- The tag of a node is settled as soon as it is read. -/
theorem readTag_eq {tag : String} (htag : family.ofTag tag = .ok kind) {l : Lexeme} (hl : QuotedAs tag l)
    {cs : List Char} (hcs : Spaced [l] cs) (rest : List Char) :
    readTag family (cs ++ rest) = .ok (kind, rest) := by
  obtain ⟨ts, rfl, hts⟩ := hl.reads
  obtain ⟨bs, hb, rfl⟩ := hcs.of_singleton
  have hskip : skipBlank (bs ++ '"' :: ts ++ rest) = '"' :: (ts ++ rest) := by
    rw [List.append_assoc, List.cons_append, hb.skipBlank_cons rfl]
  rw [readTag, hskip]
  simp only [(hts rest).1, ofJson, htag, ofTree, bind, Except.bind, pure, Except.pure]

/-- The tag of a node among its members. -/
theorem readMember_tag {tag : String} (htag : family.ofTag tag = .ok kind) {l : Lexeme} (hl : QuotedAs tag l)
    {bs cs : List Char} (hb : IsBlanks bs) (hcs : Spaced [l] cs) (d : Nat) (acc : List (String × Json))
    (rest : List Char) :
    readMember family d none acc tagKey (bs ++ ':' :: (cs ++ rest)) = .ok ((some kind, acc), rest) := by
  rw [readMember, if_pos rfl, hb.readColon]
  simp only [ofJson, bind, Except.bind, readTag_eq htag hl hcs, pure, Except.pure]

/-- A member other than the tag is read as a value. -/
theorem readMember_field {key : String} (hkey : key ≠ tagKey) {value : Json} {ls : List Lexeme}
    (hs : Spelling value ls) {bs cs : List Char} (hb : IsBlanks bs) (hcs : Spaced ls cs) (d : Nat)
    (found : Option κ) (acc : List (String × Json)) {rest : List Char} (hrest : Stops rest) :
    readMember family d found acc key (bs ++ ':' :: (cs ++ rest)) =
      if value.depth ≤ d then .ok ((found, (key, value) :: acc), rest) else .error (.flaw .malformed) := by
  rw [readMember.eq_def, if_neg hkey, hb.readColon]
  simp only [ofJson, bind, Except.bind]
  rw [hs.read hcs d hrest]
  split_ifs <;> rfl

def membersStep (family : Family κ) (d _fuel : Nat) (st : Option κ × List (String × Json)) (cs : List Char) :
    Except LoadError ((Option κ × List (String × Json)) × List Char) :=
  (ofJson (Json.readName cs)).bind fun k => readMember family d st.1 st.2 k.1 k.2

def membersEnd (st : Option κ × List (String × Json)) (rest : List Char) :
    Except LoadError ((κ × Parts) × List Char) :=
  match st.1 with
  | some kind => .ok ((kind, .members st.2.reverse), rest)
  | none => .error (.mismatch (.missingField tagKey))

def membersLoop (family : Family κ) (d fuel : Nat) (st : Option κ × List (String × Json)) (cs : List Char) :
    Except LoadError ((κ × Parts) × List Char) :=
  readMembers family fuel d st.1 st.2 cs

theorem isLoop_readMembers (d : Nat) :
    IsLoop '\x7d' (membersStep family d) membersEnd (membersLoop family d) where
  failed {fuel st cs e} h := by
    rw [membersLoop, readMembers]
    cases hname : ofJson (Json.readName cs) with
    | error e' => simp_all [membersStep, bind, Except.bind]
    | ok k =>
      simp only [membersStep, hname, Except.bind] at h
      simp only [bind, Except.bind, h]
  closed {fuel st st' cs bs rest} hb h := by
    obtain ⟨k, hname, h⟩ := Json.bind_eq_ok h
    rw [membersLoop, readMembers, hname]
    simp only [bind, Except.bind, h, hb.skipBlank_cons (c := '\x7d') rfl]
    rfl
  comma {fuel st st' cs bs rest} hb h := by
    obtain ⟨k, hname, h⟩ := Json.bind_eq_ok h
    rw [membersLoop, readMembers, hname]
    simp only [bind, Except.bind, h, hb.skipBlank_cons (c := ',') rfl]
    rfl

/-- Which members are still to be read: the tag is among them as long as no kind was found, and the others
complete those read before. -/
structure IsMembersOf (kind : κ) (tag : String) (all : List (String × Json))
    (st : Option κ × List (String × Json)) (left : List Member) : Prop where
  spelled : ∀ m ∈ left, QuotedAs m.key m.name ∧ Spelling m.value m.body
  tagged : st.1 = some kind ∧ (left.map Member.entry).filter (·.1 == tagKey) = [] ∨
    st.1 = none ∧ (left.map Member.entry).filter (·.1 == tagKey) = [(tagKey, .string tag)]
  others : st.2.reverse ++ (left.map Member.entry).filter (·.1 != tagKey) = all

/-- What one member does. -/
theorem IsMembersOf.step {tag : String} (htag : family.ofTag tag = .ok kind) {all : List (String × Json)}
    {st : Option κ × List (String × Json)} {m : Member} {left : List Member}
    (h : IsMembersOf kind tag all st (m :: left)) (d : Nat) :
    ∃ st', IsMembersOf kind tag all st' left ∧ ∀ fuel as rest, Spaced m.lexemes as → Stops rest →
      1 * as.length ≤ fuel → membersStep family d fuel st (as ++ rest) =
        if m.value.depth ≤ d then .ok (st', rest) else .error (.flaw .malformed) := by
  obtain ⟨hspelled, htagged, hothers⟩ := h
  obtain ⟨hname, hvalue⟩ := hspelled m List.mem_cons_self
  have hleft : ∀ k ∈ left, QuotedAs k.key k.name ∧ Spelling k.value k.body :=
    fun k hk => hspelled k (List.mem_cons_of_mem m hk)
  obtain ⟨found, acc⟩ := st
  by_cases hkey : m.key = tagKey
  · -- The member is the tag, so no kind was found before it and no tag is left after it.
    have htags : ((m :: left).map Member.entry).filter (·.1 == tagKey) =
        m.entry :: (left.map Member.entry).filter (·.1 == tagKey) := by simp [Member.entry, hkey]
    have hrest : ((m :: left).map Member.entry).filter (·.1 != tagKey) =
        (left.map Member.entry).filter (·.1 != tagKey) := by simp [Member.entry, hkey]
    rw [htags] at htagged
    rw [hrest] at hothers
    obtain ⟨-, hnil⟩ | ⟨rfl, hcons⟩ := htagged
    · cases hnil
    obtain ⟨hentry, hnone⟩ := List.cons.inj hcons
    have hstring : m.value = .string tag := congrArg Prod.snd hentry
    rw [hstring] at hvalue ⊢
    obtain ⟨l, hl, hbody⟩ := hvalue.of_string
    refine ⟨(some kind, acc), ⟨hleft, .inl ⟨rfl, hnone⟩, hothers⟩, fun fuel as rest has _ _ => ?_⟩
    obtain ⟨bs, es, hes, -, hb, hread⟩ := has.readName hname
    rw [hbody] at hes
    rw [membersStep, (hread rest).1, hkey, Json.depth, if_pos (Nat.zero_le d)]
    exact readMember_tag htag hl hb hes d acc rest
  · have htags : ((m :: left).map Member.entry).filter (·.1 == tagKey) =
        (left.map Member.entry).filter (·.1 == tagKey) := by simp [Member.entry, hkey]
    have hrest : ((m :: left).map Member.entry).filter (·.1 != tagKey) =
        m.entry :: (left.map Member.entry).filter (·.1 != tagKey) := by simp [Member.entry, hkey]
    rw [htags] at htagged
    rw [hrest] at hothers
    refine ⟨(found, m.entry :: acc), ⟨hleft, htagged, by simpa using hothers⟩,
      fun fuel as rest has hrest _ => ?_⟩
    obtain ⟨bs, es, hes, -, hb, hread⟩ := has.readName hname
    rw [membersStep, (hread rest).1]
    exact readMember_field hkey hvalue hb hes d found acc hrest

/-- The members of a node after its brace. -/
theorem readMembers_eq {tag : String} (htag : family.ofTag tag = .ok kind) {member : Member} {more : List Member}
    (hn : ∀ m ∈ member :: more, QuotedAs m.key m.name) (hs : ∀ m ∈ member :: more, Spelling m.value m.body)
    (h : ((member :: more).map Member.entry).filter (·.1 == tagKey) = [(tagKey, .string tag)])
    {as ds : List Char} (hp : Spaced member.lexemes as) (ht : Trail '\x7d' (more.map Member.lexemes) ds)
    {fuel : Nat} (hf : as.length + ds.length < fuel) (d : Nat) (rest : List Char) :
    readMembers family fuel d none [] (as ++ (ds ++ rest)) =
      if ∀ m ∈ member :: more, m.value.depth ≤ d then
        .ok ((kind, .members (((member :: more).map Member.entry).filter (·.1 != tagKey))), rest)
      else .error (.flaw .malformed) := by
  show membersLoop family d fuel (none, []) _ = _
  refine (isLoop_readMembers d).run (.inr rfl) Member.lexemes (fun m => m.value.depth) (k := 1) (by decide)
    (IsMembersOf kind tag (((member :: more).map Member.entry).filter (·.1 != tagKey)))
    (fun st m left hinv => hinv.step htag d) ?_ ⟨fun m hm => ⟨hn m hm, hs m hm⟩, .inr ⟨rfl, h⟩, rfl⟩ hp ht
    (by rwa [Nat.one_mul]) rest
  rintro ⟨found, acc⟩ rest ⟨-, htagged, hothers⟩
  obtain ⟨rfl, -⟩ | ⟨-, hcons⟩ := htagged
  · rw [← hothers, List.map_nil, List.filter_nil, List.append_nil]
    rfl
  · cases hcons

/-- The items of a node after its tag. -/
theorem readItems_eq {items : List (Json × List Lexeme)} (hs : ∀ i ∈ items, Spelling i.1 i.2) {cs : List Char}
    (ht : Trail ']' (items.map (·.2)) cs) {fuel : Nat} (hf : cs.length ≤ fuel) (d : Nat) (acc : List Json)
    (rest : List Char) :
    readItems fuel d acc (cs ++ rest) =
      if ∀ i ∈ items, i.1.depth ≤ d then .ok (acc.reverse ++ items.map (·.1), rest)
      else .error (.flaw .malformed) := by
  induction items generalizing cs fuel acc with
  | nil =>
    cases ht with
    | @closed bs hb =>
      simp only [List.length_append, List.length_singleton] at hf
      obtain ⟨fuel, rfl⟩ : ∃ f, fuel = f + 1 := ⟨fuel - 1, by omega⟩
      rw [readItems, List.append_assoc, List.singleton_append, hb.skipBlank_cons rfl]
      simp
  | cons item items ih =>
    cases ht with
    | @comma _ _ bs as cs hb hp ht =>
      simp only [List.length_append, List.length_cons] at hf
      obtain ⟨fuel, rfl⟩ : ∃ f, fuel = f + 1 := ⟨fuel - 1, by omega⟩
      have hread := (hs item (by simp)).read hp d (ht.stops (.inl rfl) rest)
      have htext : bs ++ ',' :: (as ++ cs) ++ rest = bs ++ ',' :: (as ++ (cs ++ rest)) := by simp
      rw [htext, readItems, hb.skipBlank_cons rfl]
      simp only [hread, List.forall_mem_cons]
      by_cases hd : item.1.depth ≤ d
      · have hfuel : cs.length ≤ fuel := by omega
        have hmore := ih (fun i hi => hs i (by simp [hi])) ht hfuel (item.1 :: acc)
        simp only [hd, if_true, true_and, ofJson, bind, Except.bind, hmore]
        simp
      · rw [if_neg hd, if_neg fun h => hd h.1]
        rfl

/-- A node is read from its text, if it nests at most as deep as allowed. -/
theorem readNode_eq {j : Json} {parts : Parts} (h : family.Splits kind j parts) {ls : List Lexeme}
    (hs : Spelling j ls) {cs : List Char} (hcs : Spaced ls cs) (d : Nat) (rest : List Char) :
    readNode family d (cs ++ rest) =
      if j.depth ≤ d then .ok ((kind, parts), rest) else .error (.flaw .malformed) := by
  cases h with
  | @object ms tag htag h =>
    obtain ⟨members, hn, hvalues, rfl, rfl⟩ := hs.of_object
    cases members with
    | nil => cases h
    | cons member more =>
      obtain ⟨l, hl⟩ := Member.head (hn member (by simp))
      obtain ⟨es, ds, hp, ht, hlength, htext⟩ := hcs.bracketed_cons rfl hl rfl
      obtain ⟨after, hopen, hskip⟩ := htext rest
      rw [readNode.eq_def, hopen]
      cases d with
      | zero => rfl
      | succ d =>
        have hfuel : ('"' :: es).length + ds.length < ('"' :: (es ++ (ds ++ rest))).length + 1 := by
          simp only [List.length_cons, List.length_append]
          omega
        have hmembers := readMembers_eq htag hn hvalues h hp ht hfuel d rest
        rw [List.cons_append] at hmembers
        simp only [hskip]
        refine hmembers.trans ?_
        simp only [Json.depth, Nat.add_le_add_iff_right, Json.membersDepth_le_iff, List.forall_mem_map,
          Member.entry]
  | @array tag js htag =>
    obtain ⟨items, hitems, hjs, rfl⟩ := hs.of_array
    cases items with
    | nil => cases hjs
    | cons item items =>
      obtain ⟨hitem, rfl⟩ := List.cons.inj hjs
      have hitem : Json.string tag = item.1 := hitem
      have htagText := hitems item (by simp)
      rw [← hitem] at htagText
      obtain ⟨l, hl, hls⟩ := htagText.of_string
      obtain ⟨t, hlt, -⟩ := hl.reads
      obtain ⟨es, ds, hp, ht, hlength, htext⟩ := hcs.bracketed_cons rfl (hls.trans (by rw [hlt])) rfl
      obtain ⟨after, hopen, hskip⟩ := htext rest
      have hp : Spaced [l] ('"' :: es) := hls ▸ hp
      have htag := readTag_eq htag hl hp (ds ++ rest)
      rw [readNode.eq_def, hopen]
      cases d with
      | zero => rfl
      | succ d =>
        have hfuel : ds.length ≤ (ds ++ rest).length + 1 := by
          rw [List.length_append]
          omega
        have hmore := readItems_eq (fun i hi => hitems i (by simp [hi])) ht hfuel d [] rest
        rw [List.cons_append] at htag
        simp only [hskip]
        split
        · next heq => exact absurd (List.cons.inj heq).1 (by decide)
        · next heq => cases heq
        simp only [htag, bind, Except.bind]
        rw [hmore]
        simp only [Json.depth, Nat.add_le_add_iff_right, Json.itemsDepth_le_iff, List.forall_mem_cons,
          List.forall_mem_map, Nat.zero_le, true_and]
        split_ifs <;> rfl

end Outermost

/-! ### Lists of statements -/

/-- A top-level statement is read from its text and decoded. -/
theorem readStatement_eq {s : Stmt} {j : Json} (h : s.Form j) {ls : List Lexeme} (hs : Spelling j ls)
    {cs : List Char} (hcs : Spaced ls cs) {d : Nat} (hd : d ≤ Json.nestingLimit) (rest : List Char) :
    readStatement d (cs ++ rest) = if j.depth ≤ d then .ok (s, rest) else .error (.flaw .malformed) := by
  obtain ⟨hfields, hj⟩ := h
  obtain ⟨parts, hsplit, hp⟩ := hfields.splits hj
  rw [readStatement, readNode_eq hsplit hs hcs]
  split_ifs with hdepth
  · have hdecode := stmtOfParts_eq (readExpr_null _) (readStmt_null _) (fun he hd => he.read hd)
      (fun hs hd => hs.read hd) hfields (hj.depth_le (Nat.le_succ_of_le (Nat.le_trans hdepth hd))) hp
    simp only [bind, Except.bind, hdecode, ofTree, pure, Except.pure]
  · rfl

def statementsStep (d _fuel : Nat) (acc : List Stmt) (cs : List Char) :
    Except LoadError (List Stmt × List Char) :=
  (readStatement d cs).map fun r => (r.1 :: acc, r.2)

theorem isLoop_readStatements (d : Nat) :
    IsLoop ']' (statementsStep d) (fun acc rest => .ok (acc.reverse, rest))
      fun fuel => readStatements fuel d where
  failed {fuel acc cs e} h := by
    rw [readStatements]
    cases hread : readStatement d cs <;> simp_all [statementsStep, Except.map, bind, Except.bind]
  closed {fuel acc acc' cs bs rest} hb h := by
    obtain ⟨⟨s, after⟩, hread, heq⟩ := Json.map_eq_ok h
    obtain ⟨rfl, rfl⟩ := Prod.mk.inj heq
    rw [readStatements, hread]
    simp only [bind, Except.bind, hb.skipBlank_cons (c := ']') rfl]
  comma {fuel acc acc' cs bs rest} hb h := by
    obtain ⟨⟨s, after⟩, hread, heq⟩ := Json.map_eq_ok h
    obtain ⟨rfl, rfl⟩ := Prod.mk.inj heq
    rw [readStatements, hread]
    simp only [bind, Except.bind, hb.skipBlank_cons (c := ',') rfl]

/-- The statements of a list after its bracket. -/
theorem readStatements_eq {u : Program} {item : Json × List Lexeme} {more : List (Json × List Lexeme)}
    (hu : List.Forall₂ Stmt.Form u ((item :: more).map (·.1))) (hs : ∀ i ∈ item :: more, Spelling i.1 i.2)
    {as ds : List Char} (hp : Spaced item.2 as) (ht : Trail ']' (more.map (·.2)) ds) {fuel : Nat}
    (hf : as.length + ds.length < fuel) {d : Nat} (hd : d ≤ Json.nestingLimit) (rest : List Char) :
    readStatements fuel d [] (as ++ (ds ++ rest)) =
      if ∀ i ∈ item :: more, i.1.depth ≤ d then .ok (u, rest) else .error (.flaw .malformed) := by
  refine (isLoop_readStatements d).run (.inl rfl) (fun i : Json × List Lexeme => i.2) (fun i => i.1.depth)
    (k := 1) (by decide) (fun acc left => (∀ i ∈ left, Spelling i.1 i.2) ∧
      ∃ ss, List.Forall₂ Stmt.Form ss (left.map (·.1)) ∧ acc.reverse ++ ss = u) ?_ ?_ ⟨hs, u, hu, rfl⟩ hp ht
    (by rwa [Nat.one_mul]) rest
  · rintro acc i left ⟨hleft, ss, hss, rfl⟩
    cases hss with
    | @cons s _ ss _ hform hss =>
      refine ⟨s :: acc, ⟨fun k hk => hleft k (List.mem_cons_of_mem i hk), ss, hss, by simp⟩, ?_⟩
      intro fuel as rest has _ _
      rw [statementsStep, readStatement_eq hform (hleft i List.mem_cons_self) has hd]
      split_ifs <;> rfl
  · rintro acc rest ⟨-, ss, hss, rfl⟩
    cases hss
    rw [List.append_nil]

/-- The statements of a program are read from the text of their array. -/
theorem readStatementList_eq {u : Program} {js : List Json} (hu : List.Forall₂ Stmt.Form u js)
    {ls : List Lexeme} (hs : Spelling (.array js) ls) {cs : List Char} (hcs : Spaced ls cs) {d : Nat}
    (hd : d ≤ Json.nestingLimit) (rest : List Char) :
    readStatementList d (cs ++ rest) =
      if (Json.array js).depth ≤ d then .ok (u, rest) else .error (.flaw .malformed) := by
  obtain ⟨items, hitems, rfl, rfl⟩ := hs.of_array
  cases items with
  | nil =>
    cases hu
    obtain ⟨-, htext⟩ := hcs.bracketed_nil rfl rfl
    obtain ⟨after, hopen, hclose⟩ := htext rest
    rw [readStatementList.eq_def, hopen]
    cases d with
    | zero => rfl
    | succ d =>
      simp only [hclose]
      simp [Json.depth, Json.itemsDepth]
  | cons item more =>
    obtain ⟨c, l, ls, hls, hc, hne⟩ := (hitems item (by simp)).head
    obtain ⟨es, ds, hp, ht, -, htext⟩ := hcs.bracketed_cons rfl hls hc
    obtain ⟨after, hopen, hskip⟩ := htext rest
    rw [readStatementList.eq_def, hopen]
    cases d with
    | zero => rfl
    | succ d =>
      have hfuel : (c :: es).length + ds.length < (c :: (es ++ (ds ++ rest))).length + 1 := by
        simp only [List.length_cons, List.length_append]
        omega
      have hstatements := readStatements_eq hu hitems hp ht hfuel (Nat.le_of_succ_le hd) rest
      rw [List.cons_append] at hstatements
      simp only [hskip]
      split
      · next heq => exact absurd (List.cons.inj heq).1 hne
      · next heq => cases heq
      rw [hstatements]
      simp only [Json.depth, Nat.add_le_add_iff_right, Json.itemsDepth_le_iff, List.forall_mem_map]

/-! ### Programs -/

def programStep (d _fuel : Nat) (found : Option Program) (cs : List Char) :
    Except LoadError (Option Program × List Char) :=
  (ofJson (Json.readName cs)).bind fun k => readProgramMember d found k.1 k.2

def programEnd (found : Option Program) (rest : List Char) : Except LoadError (Program × List Char) :=
  match found with
  | some statements => .ok (statements, rest)
  | none => .error (.mismatch (.missingField statementsKey))

theorem isLoop_readProgramMembers (d : Nat) :
    IsLoop '\x7d' (programStep d) programEnd fun fuel => readProgramMembers fuel d where
  failed {fuel found cs e} h := by
    rw [readProgramMembers]
    cases hname : ofJson (Json.readName cs) with
    | error e' => simp_all [programStep, bind, Except.bind]
    | ok k =>
      simp only [programStep, hname, Except.bind] at h
      simp only [bind, Except.bind, h]
  closed {fuel found found' cs bs rest} hb h := by
    obtain ⟨k, hname, h⟩ := Json.bind_eq_ok h
    rw [readProgramMembers, hname]
    simp only [bind, Except.bind, h, hb.skipBlank_cons (c := '\x7d') rfl]
    rfl
  comma {fuel found found' cs bs rest} hb h := by
    obtain ⟨k, hname, h⟩ := Json.bind_eq_ok h
    rw [readProgramMembers, hname]
    simp only [bind, Except.bind, h, hb.skipBlank_cons (c := ',') rfl]

/-- Which members are still to be read: the statements are among them as long as they were not found. -/
structure IsProgramMembersOf (u : Program) (js : List Json) (found : Option Program) (left : List Member) :
    Prop where
  spelled : ∀ m ∈ left, QuotedAs m.key m.name ∧ Spelling m.value m.body
  listed : found = some u ∧ (left.map Member.entry).filter (·.1 == statementsKey) = [] ∨
    found = none ∧ (left.map Member.entry).filter (·.1 == statementsKey) = [(statementsKey, .array js)]

/-- How deep a member of a program is read. -/
def readDepth (m : Member) : Nat := if m.key = statementsKey then m.value.depth else 0

/-- What one member does. -/
theorem IsProgramMembersOf.step {u : Program} {js : List Json} (hu : List.Forall₂ Stmt.Form u js)
    {found : Option Program} {m : Member} {left : List Member} (h : IsProgramMembersOf u js found (m :: left))
    {d : Nat} (hd : d ≤ Json.nestingLimit) :
    ∃ found', IsProgramMembersOf u js found' left ∧ ∀ fuel as rest, Spaced m.lexemes as → Stops rest →
      1 * as.length ≤ fuel → programStep d fuel found (as ++ rest) =
        if readDepth m ≤ d then .ok (found', rest) else .error (.flaw .malformed) := by
  obtain ⟨hspelled, hlisted⟩ := h
  obtain ⟨hname, hvalue⟩ := hspelled m List.mem_cons_self
  have hleft : ∀ k ∈ left, QuotedAs k.key k.name ∧ Spelling k.value k.body :=
    fun k hk => hspelled k (List.mem_cons_of_mem m hk)
  by_cases hkey : m.key = statementsKey
  · -- The member is the list of statements, so it was not found before and is not left after.
    have hlists : ((m :: left).map Member.entry).filter (·.1 == statementsKey) =
        m.entry :: (left.map Member.entry).filter (·.1 == statementsKey) := by simp [Member.entry, hkey]
    rw [hlists] at hlisted
    obtain ⟨-, hnil⟩ | ⟨rfl, hcons⟩ := hlisted
    · cases hnil
    obtain ⟨hentry, hnone⟩ := List.cons.inj hcons
    have harray : m.value = .array js := congrArg Prod.snd hentry
    rw [harray] at hvalue
    refine ⟨some u, ⟨hleft, .inl ⟨rfl, hnone⟩⟩, fun fuel as rest has _ _ => ?_⟩
    obtain ⟨bs, es, hes, -, hb, hread⟩ := has.readName hname
    rw [programStep, (hread rest).1, readDepth, if_pos hkey, harray]
    simp only [ofJson, Except.bind, readProgramMember, if_pos hkey, hb.readColon, bind,
      readStatementList_eq hu hvalue hes hd]
    split_ifs <;> rfl
  · have hlists : ((m :: left).map Member.entry).filter (·.1 == statementsKey) =
        (left.map Member.entry).filter (·.1 == statementsKey) := by simp [Member.entry, hkey]
    rw [hlists] at hlisted
    refine ⟨found, ⟨hleft, hlisted⟩, fun fuel as rest has hrest _ => ?_⟩
    obtain ⟨bs, es, hes, -, hb, hread⟩ := has.readName hname
    rw [programStep, (hread rest).1, readDepth, if_neg hkey, if_pos (Nat.zero_le d)]
    simp only [ofJson, Except.bind, readProgramMember, if_neg hkey, hb.readColon, bind,
      hvalue.skip hes hrest, pure, Except.pure]

theorem readDepth_le_iff {ms : List Member} {j : Json}
    (h : (ms.map Member.entry).filter (·.1 == statementsKey) = [(statementsKey, j)]) {d : Nat} :
    (∀ m ∈ ms, readDepth m ≤ d) ↔ j.depth ≤ d := by
  have hvalue : ∀ m ∈ ms, m.key = statementsKey → m.value = j := by
    intro m hm hkey
    have hmem : m.entry ∈ (ms.map Member.entry).filter (·.1 == statementsKey) :=
      List.mem_filter.2 ⟨List.mem_map_of_mem hm, by simp [Member.entry, hkey]⟩
    rw [h, List.mem_singleton] at hmem
    exact congrArg Prod.snd hmem
  constructor
  · intro hall
    have hmem : (statementsKey, j) ∈ (ms.map Member.entry).filter (·.1 == statementsKey) := by simp [h]
    obtain ⟨m, hm, hentry⟩ := List.mem_map.1 (List.mem_filter.1 hmem).1
    have hkey : m.key = statementsKey := congrArg Prod.fst hentry
    have hle := hall m hm
    rwa [readDepth, if_pos hkey, hvalue m hm hkey] at hle
  · intro hle m hm
    unfold readDepth
    split_ifs with hkey
    · rwa [hvalue m hm hkey]
    · exact Nat.zero_le d

/-- The members of a program after its brace. Of these only the list of statements is read. -/
theorem readProgramMembers_eq {u : Program} {js : List Json} (hu : List.Forall₂ Stmt.Form u js)
    {member : Member} {more : List Member} (hn : ∀ m ∈ member :: more, QuotedAs m.key m.name)
    (hs : ∀ m ∈ member :: more, Spelling m.value m.body)
    (h : ((member :: more).map Member.entry).filter (·.1 == statementsKey) = [(statementsKey, .array js)])
    {as ds : List Char} (hp : Spaced member.lexemes as) (ht : Trail '\x7d' (more.map Member.lexemes) ds)
    {fuel : Nat} (hf : as.length + ds.length < fuel) {d : Nat} (hd : d ≤ Json.nestingLimit)
    (rest : List Char) :
    readProgramMembers fuel d none (as ++ (ds ++ rest)) =
      if (Json.array js).depth ≤ d then .ok (u, rest) else .error (.flaw .malformed) := by
  simp only [← readDepth_le_iff h]
  refine (isLoop_readProgramMembers d).run (.inr rfl) Member.lexemes readDepth (k := 1) (by decide)
    (IsProgramMembersOf u js) (fun found m left hinv => hinv.step hu hd) ?_
    ⟨fun m hm => ⟨hn m hm, hs m hm⟩, .inr ⟨rfl, h⟩⟩ hp ht (by rwa [Nat.one_mul]) rest
  rintro found rest ⟨-, hlisted⟩
  obtain ⟨rfl, -⟩ | ⟨-, hcons⟩ := hlisted
  · rfl
  · cases hcons

/-- A program written as an array is read if its statements are. -/
theorem readProgramItem_eq {u : Program} {js : List Json} (hu : List.Forall₂ Stmt.Form u js)
    {ls : List Lexeme} (hs : Spelling (.array js) ls) {cs ds : List Char} (hcs : Spaced ls cs)
    (ht : Trail ']' [] ds) {d : Nat} (hd : d ≤ Json.nestingLimit) (rest : List Char) :
    readProgramItem d (cs ++ (ds ++ rest)) =
      if (Json.array js).depth ≤ d then .ok (u, rest) else .error (.flaw .malformed) := by
  cases ht with
  | closed hb =>
    rw [readProgramItem, readStatementList_eq hu hs hcs hd, List.append_assoc, List.singleton_append]
    split_ifs
    · simp only [bind, Except.bind, hb.skipBlank_cons (c := ']') rfl]
    · rfl

/-- A program is read from its text, if its statements nest at most as deep as the limit allows. -/
theorem readProgram_eq {u : Program} {js : List Json} (hu : List.Forall₂ Stmt.Form u js) {j : Json}
    (hj : RecordForm [(statementsKey, .array js)] j) {ls : List Lexeme} (hs : Spelling j ls) {cs : List Char}
    (hcs : Spaced ls cs) (rest : List Char) :
    readProgram (cs ++ rest) =
      if (Json.array js).depth ≤ Json.nestingLimit - 1 then .ok (u, rest) else .error (.flaw .malformed) := by
  have hd : Json.nestingLimit - 1 ≤ Json.nestingLimit := Nat.sub_le _ _
  cases hj with
  | object h =>
    obtain ⟨members, hn, hvalues, rfl, rfl⟩ := hs.of_object
    have hfilter : (members.map Member.entry).filter (·.1 == statementsKey) = [(statementsKey, .array js)] := by
      rcases h.filter_key (by simp) List.mem_cons_self with hfilter | ⟨hnull, -⟩
      · exact hfilter
      · cases hnull
    cases members with
    | nil => cases hfilter
    | cons member more =>
      obtain ⟨l, hl⟩ := Member.head (hn member (by simp))
      obtain ⟨es, ds, hp, ht, -, htext⟩ := hcs.bracketed_cons rfl hl rfl
      obtain ⟨after, hopen, hskip⟩ := htext rest
      have hfuel : ('"' :: es).length + ds.length < ('"' :: (es ++ (ds ++ rest))).length + 1 := by
        simp only [List.length_cons, List.length_append]
        omega
      have hmembers := readProgramMembers_eq hu hn hvalues hfilter hp ht hfuel hd rest
      rw [List.cons_append] at hmembers
      rw [readProgram, hopen]
      simp only [Json.nestingLimit, hskip]
      exact hmembers
  | array =>
    obtain ⟨items, hitems, hjs, rfl⟩ := hs.of_array
    obtain ⟨item, rfl, hitem⟩ := List.map_eq_singleton_iff.1 hjs.symm
    have hstatements := hitems item List.mem_cons_self
    rw [hitem] at hstatements
    obtain ⟨c, l, more, hls, hc, hne⟩ := hstatements.head
    obtain ⟨es, ds, hp, ht, -, htext⟩ := hcs.bracketed_cons rfl hls hc
    obtain ⟨after, hopen, hskip⟩ := htext rest
    have hprogram := readProgramItem_eq hu hstatements hp ht hd rest
    rw [List.cons_append] at hprogram
    rw [readProgram, hopen]
    simp only [Json.nestingLimit, hskip]
    split
    · next heq => exact absurd (List.cons.inj heq).1 hne
    · next heq => cases heq
    · exact hprogram

end TreeWalk.Load
