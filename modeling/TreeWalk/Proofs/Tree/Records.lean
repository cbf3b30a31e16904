import TreeWalk.Proofs.Json.Spelling
import TreeWalk.Tree.Encode

/-! Records in any form. A record is written as an object, with its fields in any order among members of
other names, or as the array of its fields; in an object, a field that is null may be left out. In all
these forms every field is read as if it stood alone, and a node is split into its kind and the record of
its other fields. -/

namespace TreeWalk

/-! ### Forms of records -/

/-- The members are the fields, in any order and except for some that are null, and members of other
names. -/
def MembersOf (fields members : List (String × Json)) : Prop :=
  ∃ written others, members.Perm (written ++ others) ∧ written.Sublist fields ∧
    (∀ f ∈ fields, f ∉ written → f.2 = .null) ∧ ∀ m ∈ others, ∀ f ∈ fields, m.1 ≠ f.1

/-- The value is a record with these fields. -/
inductive RecordForm (fields : List (String × Json)) : Json → Prop where
  | object {members : List (String × Json)} (h : MembersOf fields members) : RecordForm fields (.object members)
  | array : RecordForm fields (.array (fields.map (·.2)))

/-- The value is a node with this tag and these fields. -/
def NodeForm (tag : String) (fields : List (String × Json)) (j : Json) : Prop :=
  RecordForm ((tagKey, .string tag) :: fields) j

theorem membersOf_self (fields : List (String × Json)) : MembersOf fields fields :=
  ⟨fields, [], by simp, List.Sublist.refl fields, fun f hf hn => absurd hf hn, List.forall_mem_nil _⟩

/-- The fields may stand backwards after another member. -/
theorem membersOf_reverse {fields : List (String × Json)} (written : List (String × Json))
    {other : String × Json} (hsub : written.Sublist fields)
    (hnull : ∀ f ∈ fields, f ∉ written → f.2 = .null) (hother : ∀ f ∈ fields, other.1 ≠ f.1) :
    MembersOf fields (other :: written.reverse) := by
  refine ⟨written, [other], ?_, hsub, hnull, by simpa using hother⟩
  exact ((List.reverse_perm written).cons other).trans (List.perm_append_singleton other written).symm

theorem nodeForm_nodeJson (tag : String) (fields : List (String × Json)) :
    NodeForm tag fields (nodeJson tag fields) :=
  .object (membersOf_self _)

/-- A field is deeper down than its record. -/
theorem RecordForm.depth_lt {fields : List (String × Json)} {j : Json} (h : RecordForm fields j) :
    ∀ f ∈ fields, f.2.depth < j.depth := by
  intro f hf
  cases h with
  | @object members h =>
    obtain ⟨written, others, hperm, -, hnull, -⟩ := h
    by_cases hw : f ∈ written
    · exact Json.depth_lt_object (hperm.mem_iff.2 (List.mem_append_left others hw))
    · rw [hnull f hf hw]
      exact Nat.succ_pos _
  | array => exact Json.depth_lt_array (List.mem_map_of_mem hf)

/-! ### Members by name -/

theorem filter_key {fields : List (String × Json)} (hd : (fields.map (·.1)).Nodup) {key : String} {j : Json}
    (h : (key, j) ∈ fields) : fields.filter (·.1 == key) = [(key, j)] := by
  induction fields with
  | nil => exact absurd h List.not_mem_nil
  | cons f fields ih =>
    rw [List.map_cons, List.nodup_cons] at hd
    rcases List.mem_cons.1 h with rfl | h
    · have hnone : fields.filter (·.1 == key) = [] := by
        simp only [List.filter_eq_nil_iff, beq_iff_eq]
        rintro g hg rfl
        exact hd.1 (List.mem_map_of_mem (f := (·.1)) hg)
      simp [hnone]
    · have hne : f.1 ≠ key := by
        rintro rfl
        exact hd.1 (List.mem_map_of_mem (f := (·.1)) h)
      rw [List.filter_cons_of_neg (by simpa using hne), ih hd.2 h]

/-- A field stands among the members once, unless it is null and left out. -/
theorem MembersOf.filter_key {fields members : List (String × Json)} (h : MembersOf fields members)
    (hd : (fields.map (·.1)).Nodup) {key : String} {j : Json} (hj : (key, j) ∈ fields) :
    members.filter (·.1 == key) = [(key, j)] ∨ j = .null ∧ members.filter (·.1 == key) = [] := by
  obtain ⟨written, others, hperm, hsub, hnull, hothers⟩ := h
  have hnone : others.filter (·.1 == key) = [] := by
    simp only [List.filter_eq_nil_iff, beq_iff_eq]
    exact fun m hm => hothers m hm (key, j) hj
  have hfilter := hperm.filter (·.1 == key)
  rw [List.filter_append, hnone, List.append_nil] at hfilter
  by_cases hw : (key, j) ∈ written
  · rw [TreeWalk.filter_key (hd.sublist (hsub.map _)) hw] at hfilter
    exact .inl (List.perm_singleton.1 hfilter)
  · refine .inr ⟨hnull (key, j) hj hw, ?_⟩
    have hwritten : written.filter (·.1 == key) = [] := by
      simp only [List.filter_eq_nil_iff, beq_iff_eq]
      rintro m hm rfl
      have hfield : m ∈ fields.filter (·.1 == m.1) := List.mem_filter.2 ⟨hsub.subset hm, by simp⟩
      rw [TreeWalk.filter_key hd hj, List.mem_singleton] at hfield
      exact hw (hfield ▸ hm)
    rw [hwritten] at hfilter
    exact List.perm_nil.1 hfilter

/-- Members of one name that is not among the fields may be taken out. -/
theorem MembersOf.tail {f : String × Json} {fields members : List (String × Json)}
    (h : MembersOf (f :: fields) members) (hf : ∀ g ∈ fields, g.1 ≠ f.1) :
    MembersOf fields (members.filter (·.1 != f.1)) := by
  obtain ⟨written, others, hperm, hsub, hnull, hothers⟩ := h
  refine ⟨written.filter (·.1 != f.1), others.filter (·.1 != f.1), ?_, ?_, ?_, ?_⟩
  · rw [← List.filter_append]
    exact hperm.filter _
  · have hfields : (f :: fields).filter (·.1 != f.1) = fields := by
      rw [List.filter_cons_of_neg (by simp), List.filter_eq_self]
      exact fun g hg => by simpa using hf g hg
    rw [← hfields]
    exact hsub.filter _
  · intro g hg hn
    refine hnull g (List.mem_cons_of_mem f hg) fun hw => hn (List.mem_filter.2 ⟨hw, ?_⟩)
    simpa using hf g hg
  · intro m hm g hg
    exact hothers m (List.mem_filter.1 hm).1 g (List.mem_cons_of_mem f hg)

theorem map_occurrences (key : String) (place : Nat) (ms : List (String × Json)) :
    (occurrences key place ms).map (·.2) = (ms.filter (·.1 == key)).map (·.2) := by
  induction ms generalizing place with
  | nil => rfl
  | cons m ms ih =>
    by_cases hm : m.1 = key
    · rw [occurrences, if_pos hm, List.filter_cons_of_pos (by simpa using hm), List.map_cons, ih, List.map_cons]
    · rw [occurrences, if_neg hm, List.filter_cons_of_neg (by simpa using hm), ih]

/-! ### Reading fields -/

/-- The value that is made of the parts. -/
def Parts.toJson : Parts → Json
  | .members ms => .object ms
  | .items js => .array js

/-- The parts of a record hold the fields of its type. -/
structure Schema.Holds (schema : Schema) (fields : List (String × Json)) (parts : Parts) : Prop where
  names : schema.fields = fields.map (·.1)
  nodup : schema.fields.Nodup
  form : RecordForm fields parts.toJson

section Reading

variable {α : Type} {schema : Schema} {fields : List (String × Json)} {parts : Parts}

theorem Parts.member_eq {ms : List (String × Json)} {key : String} {j : Json}
    (h : ms.filter (·.1 == key) = [(key, j)]) {read : Json → Except Mismatch α} {a : α} (hread : read j = .ok a)
    (absent : Reading α) : Parts.member ms key read absent = .done a := by
  have hmap := map_occurrences key 0 ms
  rw [h, List.map_singleton, List.map_eq_singleton_iff] at hmap
  obtain ⟨⟨place, j'⟩, hoccurrences, rfl⟩ := hmap
  rw [Parts.member, hoccurrences]
  simp only [hread]

theorem Parts.member_absent {ms : List (String × Json)} {key : String} (h : ms.filter (·.1 == key) = [])
    (read : Json → Except Mismatch α) (absent : Reading α) : Parts.member ms key read absent = absent := by
  have hmap := map_occurrences key 0 ms
  rw [h, List.map_nil, List.map_eq_nil_iff] at hmap
  rw [Parts.member, hmap]

theorem Schema.item_eq (hn : schema.fields = fields.map (·.1)) (hd : schema.fields.Nodup) {name : String}
    {j : Json} (hj : (name, j) ∈ fields) {read : Json → Except Mismatch α} {a : α} (hread : read j = .ok a) :
    schema.item (fields.map (·.2)) (schema.fields.idxOf name) read = .done a := by
  obtain ⟨i, hi, hget⟩ := List.getElem_of_mem hj
  have hindex : schema.fields.idxOf name = i := by
    have hlt : i < schema.fields.length := by simpa [hn] using hi
    have hname : schema.fields[i] = name := by simp [hn, hget]
    rw [← hname, hd.idxOf_getElem]
  have hitem : (fields.map (·.2))[i]? = some j := by simp [hi, hget]
  rw [Schema.item, hindex, hitem]
  simp only [hread]
  rfl

/-- A field is read on its own, by a reader that refuses null. -/
theorem Schema.Holds.field (h : schema.Holds fields parts) (name : String) {j : Json}
    (hj : (name, j) ∈ fields) {read : Json → Except Mismatch α} (hnull : ∃ m, read .null = .error m) {a : α}
    (hread : read j = .ok a) : schema.field parts name read = .done a := by
  obtain ⟨hn, hd, hform⟩ := h
  cases parts with
  | members ms =>
    cases hform with
    | object hms =>
      rcases hms.filter_key (hn ▸ hd) hj with hfilter | ⟨rfl, -⟩
      · exact Parts.member_eq hfilter hread _
      · obtain ⟨m, hm⟩ := hnull
        rw [hm] at hread
        cases hread
  | items js =>
    cases hform
    exact Schema.item_eq hn hd hj hread

/-- A field that may be null is read on its own, also if it is left out. -/
theorem Schema.Holds.optional (h : schema.Holds fields parts) (name : String) {j : Json}
    (hj : (name, j) ∈ fields) {read : Json → Except Mismatch α} {o : Option α}
    (hread : orNull read j = .ok o) : schema.optional parts name read = .done o := by
  obtain ⟨hn, hd, hform⟩ := h
  cases parts with
  | members ms =>
    cases hform with
    | object hms =>
      rcases hms.filter_key (hn ▸ hd) hj with hfilter | ⟨rfl, hfilter⟩
      · exact Parts.member_eq hfilter hread _
      · cases hread
        exact Parts.member_absent hfilter _ _
  | items js =>
    cases hform
    exact Schema.item_eq hn hd hj hread

/-- No items are left over. -/
theorem Schema.Holds.finish (h : schema.Holds fields parts) (a : α) :
    schema.finish parts (.done a) = .ok a := by
  obtain ⟨hn, -, hform⟩ := h
  cases parts with
  | members ms => rfl
  | items js =>
    cases hform
    have hlength : ¬ schema.fields.length < (fields.map (·.2)).length := by simp [hn]
    simp only [Schema.finish, Reading.toExcept, if_neg hlength]

end Reading

namespace Reading

variable {α β : Type}

@[simp] theorem map_done (f : α → β) (a : α) : f <$> Reading.done a = .done (f a) := rfl

@[simp] theorem seq_done (f : α → β) (a : α) : Reading.done f <*> Reading.done a = .done (f a) := rfl

end Reading

theorem Schema.parts_eq {fields : List (String × Json)} {j : Json} (h : RecordForm fields j) (schema : Schema) :
    ∃ parts, schema.parts j = .ok parts ∧ RecordForm fields parts.toJson := by
  cases h with
  | object h => exact ⟨.members _, rfl, .object h⟩
  | array => exact ⟨.items _, rfl, .array⟩

/-! ### Nodes -/

/-- The value is a node of this kind, by the name of its tag, and the other parts are these. -/
inductive Family.Splits {κ : Type} (family : Family κ) (kind : κ) : Json → Parts → Prop where
  | object {ms : List (String × Json)} {tag : String} (htag : family.ofTag tag = .ok kind)
      (h : ms.filter (·.1 == tagKey) = [(tagKey, .string tag)]) :
      Splits family kind (.object ms) (.members (ms.filter (·.1 != tagKey)))
  | array {tag : String} {js : List Json} (htag : family.ofTag tag = .ok kind) :
      Splits family kind (.array (.string tag :: js)) (.items js)

section Nodes

variable {κ : Type} {family : Family κ} {kind : κ}

theorem Family.Splits.split {j : Json} {parts : Parts} (h : family.Splits kind j parts) :
    family.split j = .ok (kind, parts) := by
  cases h with
  | object htag h => simp [Family.split, h, Family.readTag, htag, bind, Except.bind]
  | array htag => simp [Family.split, Family.readTag, htag, bind, Except.bind, pure, Except.pure]

theorem NodeForm.splits {tag : String} (htag : family.ofTag tag = .ok kind) {fields : List (String × Json)}
    (hd : (tagKey :: fields.map (·.1)).Nodup) {j : Json} (h : NodeForm tag fields j) :
    ∃ parts, family.Splits kind j parts ∧ RecordForm fields parts.toJson := by
  have hkeys : ∀ f ∈ fields, f.1 ≠ tagKey := by
    rintro f hf heq
    exact (List.nodup_cons.1 hd).1 (heq ▸ List.mem_map_of_mem hf)
  cases h with
  | object h =>
    rcases h.filter_key hd List.mem_cons_self with hfilter | ⟨hnull, -⟩
    · exact ⟨_, .object htag hfilter, .object (h.tail hkeys)⟩
    · cases hnull
  | array => exact ⟨_, .array htag, .array⟩

end Nodes

end TreeWalk
