import Mathlib.Order.Nat
import TreeWalk.Proofs.Json.Limits
import TreeWalk.Proofs.Tree.Codec

/-! What decoding a value can give. A tree is written no deeper than the value that it was decoded from,
whatever form the value has: a record is one level around its fields as an object and as an array, and what
can be left out or written in two ways is written with as few levels as can be. The levels are counted
field by field, through the places in which the parts of a record hold its fields. -/

namespace TreeWalk

/-! ### Depths -/

theorem Json.depth_array_mono {js ks : List Json} (h : ∀ j ∈ js, ∃ k ∈ ks, j.depth ≤ k.depth) :
    (array js).depth ≤ (array ks).depth := by
  rw [depth, depth, Nat.add_le_add_iff_right, itemsDepth_le_iff]
  intro j hj
  obtain ⟨k, hk, hle⟩ := h j hj
  exact hle.trans (itemsDepth_le_iff.1 (Nat.le_refl _) k hk)

theorem Parts.depth_pos (parts : Parts) : 0 < parts.toJson.depth := by
  cases parts <;> exact Nat.succ_pos _

/-- A node is one level around its fields. -/
theorem depth_nodeJson_le {tag : String} {fields : List (String × Json)} {d : Nat} (hd : 0 < d)
    (h : ∀ f ∈ fields, f.2.depth < d) : (nodeJson tag fields).depth ≤ d := by
  obtain ⟨d, rfl⟩ : ∃ n, d = n + 1 := ⟨d - 1, by omega⟩
  refine Json.depth_object_le (List.forall_mem_cons.2 ⟨Nat.zero_le d, fun f hf => ?_⟩)
  exact Nat.lt_succ_iff.1 (h f hf)

/-- Whatever the reader gives is written no deeper than the value that it was read from. -/
def NoDeeper {α : Type} (read : Json → Except Mismatch α) (write : α → Json) : Prop :=
  ∀ j, Gives (read j) fun a => (write a).depth ≤ j.depth

/-! ### Fields of records -/

namespace Reading

variable {α β : Type}

theorem map_eq_done {f : α → β} {r : Reading α} {b : β} :
    f <$> r = .done b ↔ ∃ a, r = .done a ∧ f a = b := by
  cases r with
  | done a => simp [Functor.map, map]
  | failed s => simp [Functor.map, map]

theorem seq_eq_done {r : Reading (α → β)} {s : Reading α} {b : β} :
    r <*> s = .done b ↔ ∃ f a, r = .done f ∧ s = .done a ∧ f a = b := by
  cases r <;> cases s <;> simp [Seq.seq, apply]

end Reading

section Fields

variable {α : Type} {schema : Schema} {parts : Parts} {name : String} {read : Json → Except Mismatch α}

/-- A field that is read from members and not absent stands among them. -/
theorem Parts.exists_of_member {ms : List (String × Json)} {absent : Reading α} {a : α}
    (h : Parts.member ms name read absent = .done a) (habsent : absent ≠ .done a) :
    ∃ j, j.depth < (Json.object ms).depth ∧ read j = .ok a := by
  unfold Parts.member at h
  split at h
  · exact absurd h habsent
  · next place j again hoccurrences =>
    have hvalues := map_occurrences name 0 ms
    rw [hoccurrences, List.map_cons] at hvalues
    obtain ⟨m, hm, rfl⟩ := List.mem_map.1 (hvalues ▸ List.mem_cons_self)
    refine ⟨m.2, Json.depth_lt_object (List.mem_filter.1 hm).1, ?_⟩
    split at h
    · cases h
    · next hread => rw [hread, Reading.done.inj h]
    · cases h

theorem Schema.exists_of_item {js : List Json} {index : Nat} {a : α}
    (h : schema.item js index read = .done a) : ∃ j, j.depth < (Json.array js).depth ∧ read j = .ok a := by
  unfold Schema.item at h
  split at h
  · next j hj =>
    refine ⟨j, Json.depth_lt_array (List.mem_of_getElem? hj), ?_⟩
    cases hread : read j with
    | ok b =>
      rw [hread] at h
      rw [Reading.done.inj h]
    | error m =>
      rw [hread] at h
      cases h
  · cases h

theorem Schema.finish_ok {reading : Reading α} {a : α} (h : schema.finish parts reading = .ok a) :
    reading = .done a := by
  cases reading with
  | failed slip => cases parts <;> cases h
  | done b =>
    cases parts with
    | members ms =>
      cases h
      rfl
    | items js =>
      simp only [finish, Reading.toExcept] at h
      split_ifs at h
      cases h
      rfl

/-- A field is written at a lower level than the record it was read from. -/
theorem NoDeeper.field {write : α → Json} (h : NoDeeper read write) {a : α}
    (hread : schema.field parts name read = .done a) : (write a).depth < parts.toJson.depth := by
  obtain ⟨j, hlt, hj⟩ : ∃ j, j.depth < parts.toJson.depth ∧ read j = .ok a := by
    cases parts with
    | members ms => exact Parts.exists_of_member hread (by simp)
    | items js => exact Schema.exists_of_item hread
  exact (h j a hj).trans_lt hlt

theorem orNull_ok {j : Json} {a : α} (h : orNull read j = .ok (some a)) : read j = .ok a := by
  unfold orNull at h
  split at h
  · cases h
  · obtain ⟨b, hb, heq⟩ := Json.map_eq_ok h
    rw [hb, Option.some.inj heq]

/-- A field that may be absent is written at a lower level too. -/
theorem NoDeeper.optional {write : α → Json} (h : NoDeeper read write) {o : Option α}
    (hread : schema.optional parts name read = .done o) :
    (o.elim Json.null write).depth < parts.toJson.depth := by
  cases o with
  | none => exact parts.depth_pos
  | some a =>
    obtain ⟨j, hlt, hj⟩ : ∃ j, j.depth < parts.toJson.depth ∧ orNull read j = .ok (some a) := by
      cases parts with
      | members ms => exact Parts.exists_of_member hread (by simp)
      | items js => exact Schema.exists_of_item hread
    exact (h j a (orNull_ok hj)).trans_lt hlt

theorem Schema.parts_ok {j : Json} (h : schema.parts j = .ok parts) : parts.toJson = j := by
  cases j <;> cases h <;> rfl

end Fields

/-! ### Scalars and sequences -/

theorem noDeeper_readLine : NoDeeper readLine Line.toJson := fun _ _ _ => Nat.zero_le _

theorem noDeeper_readString : NoDeeper readString .string := fun _ _ _ => Nat.zero_le _

theorem noDeeper_readTy : NoDeeper readTy Ty.toJson := fun _ _ _ => Nat.zero_le _

/-- The payload of a variant is one level below it. -/
theorem gives_readVariant (known : List String) (j : Json) :
    Gives (readVariant known j) fun r => r.2.isSome → 0 < j.depth := by
  unfold readVariant
  split
  · dsimp only [bind, Except.bind]
    split_ifs
    · exact .ok fun h => absurd h Bool.false_ne_true
    · exact .error _
  · dsimp only [bind, Except.bind]
    split_ifs
    · exact .ok fun _ => Nat.succ_pos _
    · exact .error _
  · exact .error _
  · exact .error _

theorem gives_readPayload {α : Type} {read : Json → Except Mismatch α} {payload : Option Json} {d : Nat}
    (h : payload.isSome → 0 < d) {wrap : α → Value} (hwrap : ∀ a, (wrap a).toJson.depth ≤ 1) :
    Gives (wrap <$> readPayload read payload) fun v => v.toJson.depth ≤ d := by
  cases payload with
  | none => exact .error _
  | some j =>
    intro v hv
    obtain ⟨a, -, rfl⟩ := Json.map_eq_ok hv
    exact (hwrap a).trans (h rfl)

theorem noDeeper_readValue : NoDeeper readValue Value.toJson := by
  intro j
  refine (gives_readVariant Value.tags j).bind ?_
  rintro ⟨name, payload⟩ hpayload
  dsimp only
  split
  · exact gives_readPayload hpayload fun _ => Nat.le_refl 1
  · exact gives_readPayload hpayload fun _ => Nat.le_refl 1
  · exact gives_readPayload hpayload fun _ => Nat.le_refl 1
  · exact gives_readPayload hpayload fun _ => Nat.le_refl 1
  · exact .bind_any fun _ => .ok (Nat.zero_le _)

theorem gives_mapM {α β : Type} (read : β → Except Mismatch α) (js : List β) :
    Gives (js.mapM read) fun as => ∀ a ∈ as, ∃ j ∈ js, read j = .ok a := by
  induction js with
  | nil => exact .ok (List.forall_mem_nil _)
  | cons j js ih =>
    rw [List.mapM_cons]
    refine Gives.bind (q := fun a => read j = .ok a) (fun a ha => ha) fun a ha => ih.bind fun as has => .ok ?_
    refine List.forall_mem_cons.2 ⟨⟨j, List.mem_cons_self, ha⟩, fun b hb => ?_⟩
    obtain ⟨k, hk, hread⟩ := has b hb
    exact ⟨k, List.mem_cons_of_mem j hk, hread⟩

theorem NoDeeper.sequence {α : Type} {read : Json → Except Mismatch α} {write : α → Json}
    (h : NoDeeper read write) : NoDeeper (readSequence read) fun as => .array (as.map write) := by
  intro j
  unfold readSequence
  split
  · next js =>
    refine (gives_mapM read js).mono fun as has => Json.depth_array_mono ?_
    refine List.forall_mem_map.2 fun a ha => ?_
    obtain ⟨j, hj, hread⟩ := has a ha
    exact ⟨j, hj, h j a hread⟩
  · exact .error _

/-! ### Records and nodes -/

theorem noDeeper_readParameter : NoDeeper readParameter Parameter.toJson := by
  intro j
  refine Gives.bind (q := fun parts => parts.toJson = j) (fun parts h => Schema.parts_ok h) ?_
  rintro parts rfl p -
  exact parts.depth_pos

theorem NoDeeper.body {child : Json → Except Mismatch Stmt} (hchild : NoDeeper child Stmt.toJson) :
    NoDeeper (readBody child) fun b => bodyJson b.1 b.2 := by
  intro j
  refine Gives.bind (q := fun parts => parts.toJson = j) (fun parts h => Schema.parts_ok h) ?_
  rintro parts rfl b hb
  have hb := Schema.finish_ok hb
  simp only [Reading.seq_eq_done, Reading.map_eq_done] at hb
  obtain ⟨_, line, ⟨ss, hss, rfl⟩, -, rfl⟩ := hb
  have hstatements := hchild.sequence.field hss
  rw [← Stmt.listToJson_eq] at hstatements
  refine (Json.depth_object_le ?_).trans (Nat.succ_le_of_lt hstatements)
  simp only [List.forall_mem_cons]
  exact ⟨Nat.le_refl _, Nat.zero_le _, List.forall_mem_nil _⟩

theorem Family.gives_split {κ : Type} (family : Family κ) (j : Json) :
    Gives (family.split j) fun r => r.2.toJson.depth ≤ j.depth := by
  unfold Family.split
  split
  · next ms =>
    split
    · exact .error _
    · refine .bind_any fun kind => ?_
      split_ifs
      · refine .ok (Json.depth_object_le fun m hm => ?_)
        exact Nat.lt_succ_iff.1 (Json.depth_lt_object (List.mem_filter.1 hm).1)
      · exact .error _
  · exact .error _
  · next j js =>
    refine .bind_any fun kind => .ok (Json.depth_array_mono fun k hk => ?_)
    exact ⟨k, List.mem_cons_of_mem j hk, Nat.le_refl _⟩
  · exact .error _

theorem Expr.optionToJson_eq (o : Option Expr) : Expr.optionToJson o = o.elim .null Expr.toJson := by
  cases o <;> rfl

theorem Stmt.optionToJson_eq (o : Option Stmt) : Stmt.optionToJson o = o.elim .null Stmt.toJson := by
  cases o <;> rfl

/-- An expression is written at the level of its parts, if the expressions in it are. -/
theorem gives_exprOfParts {child : Json → Except Mismatch Expr} (hchild : NoDeeper child Expr.toJson)
    (kind : ExprKind) (parts : Parts) :
    Gives (exprOfParts child kind parts) fun e => e.toJson.depth ≤ parts.toJson.depth := by
  intro e he
  have he := Schema.finish_ok he
  rw [e.toJson_eq]
  refine depth_nodeJson_le parts.depth_pos ?_
  cases kind with simp only [Reading.seq_eq_done, Reading.map_eq_done] at he
  | literal =>
    obtain ⟨_, line, ⟨value, hvalue, rfl⟩, hline, rfl⟩ := he
    simp only [Expr.fields, List.forall_mem_cons]
    exact ⟨noDeeper_readValue.field hvalue, noDeeper_readLine.field hline, List.forall_mem_nil _⟩
  | grouping =>
    obtain ⟨_, line, ⟨inner, hinner, rfl⟩, hline, rfl⟩ := he
    simp only [Expr.fields, List.forall_mem_cons]
    exact ⟨hchild.field hinner, noDeeper_readLine.field hline, List.forall_mem_nil _⟩
  | unary =>
    obtain ⟨_, line, ⟨_, operand, ⟨op, hop, rfl⟩, hoperand, rfl⟩, hline, rfl⟩ := he
    simp only [Expr.fields, List.forall_mem_cons]
    exact ⟨noDeeper_readString.field hop, hchild.field hoperand, noDeeper_readLine.field hline,
      List.forall_mem_nil _⟩
  | binary | logical =>
    obtain ⟨_, line, ⟨_, right, ⟨_, op, ⟨left, hleft, rfl⟩, hop, rfl⟩, hright, rfl⟩, hline, rfl⟩ := he
    simp only [Expr.fields, List.forall_mem_cons]
    exact ⟨hchild.field hleft, noDeeper_readString.field hop, hchild.field hright,
      noDeeper_readLine.field hline, List.forall_mem_nil _⟩
  | access =>
    obtain ⟨_, line, ⟨name, hname, rfl⟩, hline, rfl⟩ := he
    simp only [Expr.fields, List.forall_mem_cons]
    exact ⟨noDeeper_readString.field hname, noDeeper_readLine.field hline, List.forall_mem_nil _⟩
  | assign =>
    obtain ⟨_, line, ⟨_, value, ⟨name, hname, rfl⟩, hvalue, rfl⟩, hline, rfl⟩ := he
    simp only [Expr.fields, List.forall_mem_cons]
    exact ⟨noDeeper_readString.field hname, hchild.field hvalue, noDeeper_readLine.field hline,
      List.forall_mem_nil _⟩
  | call =>
    obtain ⟨_, line, ⟨_, arguments, ⟨callee, hcallee, rfl⟩, harguments, rfl⟩, hline, rfl⟩ := he
    have harguments := hchild.sequence.field harguments
    rw [← Expr.listToJson_eq] at harguments
    simp only [Expr.fields, List.forall_mem_cons]
    exact ⟨noDeeper_readString.field hcallee, harguments, noDeeper_readLine.field hline,
      List.forall_mem_nil _⟩

theorem noDeeper_readExpr (fuel : Nat) : NoDeeper (readExpr fuel) Expr.toJson := by
  induction fuel with
  | zero => exact fun j => .error _
  | succ fuel ih =>
    intro j
    refine (Expr.family.gives_split j).bind ?_
    rintro ⟨kind, parts⟩ hparts
    exact (gives_exprOfParts ih kind parts).mono fun e he => he.trans hparts

/-- A statement is written at the level of its parts, if the expressions and statements in it are. -/
theorem gives_stmtOfParts {expr : Json → Except Mismatch Expr} {child : Json → Except Mismatch Stmt}
    (hexpr : NoDeeper expr Expr.toJson) (hchild : NoDeeper child Stmt.toJson) (kind : StmtKind)
    (parts : Parts) :
    Gives (stmtOfParts expr child kind parts) fun s => s.toJson.depth ≤ parts.toJson.depth := by
  intro s hs
  have hs := Schema.finish_ok hs
  rw [s.toJson_eq]
  refine depth_nodeJson_le parts.depth_pos ?_
  cases kind with simp only [Reading.seq_eq_done, Reading.map_eq_done] at hs
  | function =>
    obtain ⟨_, line, ⟨_, body, ⟨_, ps, ⟨_, type, ⟨name, hname, rfl⟩, htype, rfl⟩, hps, rfl⟩, hbody, rfl⟩,
      hline, rfl⟩ := hs
    simp only [Stmt.fields, List.forall_mem_cons]
    exact ⟨noDeeper_readString.field hname, noDeeper_readTy.field htype,
      noDeeper_readParameter.sequence.field hps, hchild.body.field hbody, noDeeper_readLine.field hline,
      List.forall_mem_nil _⟩
  | block =>
    obtain ⟨_, line, ⟨ss, hss, rfl⟩, hline, rfl⟩ := hs
    have hss := hchild.sequence.field hss
    rw [← Stmt.listToJson_eq] at hss
    simp only [Stmt.fields, List.forall_mem_cons]
    exact ⟨hss, noDeeper_readLine.field hline, List.forall_mem_nil _⟩
  | expression | print =>
    obtain ⟨_, line, ⟨e, he, rfl⟩, hline, rfl⟩ := hs
    simp only [Stmt.fields, List.forall_mem_cons]
    exact ⟨hexpr.field he, noDeeper_readLine.field hline, List.forall_mem_nil _⟩
  | branch =>
    obtain ⟨_, line, ⟨_, o, ⟨_, t, ⟨c, hc, rfl⟩, ht, rfl⟩, ho, rfl⟩, hline, rfl⟩ := hs
    simp only [Stmt.fields, List.forall_mem_cons, Stmt.optionToJson_eq]
    exact ⟨hexpr.field hc, hchild.field ht, hchild.optional ho, noDeeper_readLine.field hline,
      List.forall_mem_nil _⟩
  | declare =>
    obtain ⟨_, line, ⟨_, e, ⟨_, type, ⟨name, hname, rfl⟩, htype, rfl⟩, he, rfl⟩, hline, rfl⟩ := hs
    simp only [Stmt.fields, List.forall_mem_cons, Expr.optionToJson_eq]
    exact ⟨noDeeper_readString.field hname, noDeeper_readTy.field htype, hexpr.optional he,
      noDeeper_readLine.field hline, List.forall_mem_nil _⟩
  | loop =>
    obtain ⟨_, line, ⟨_, body, ⟨c, hc, rfl⟩, hbody, rfl⟩, hline, rfl⟩ := hs
    simp only [Stmt.fields, List.forall_mem_cons]
    exact ⟨hexpr.field hc, hchild.body.field hbody, noDeeper_readLine.field hline, List.forall_mem_nil _⟩
  | ret =>
    obtain ⟨_, line, ⟨e, he, rfl⟩, hline, rfl⟩ := hs
    simp only [Stmt.fields, List.forall_mem_cons, Expr.optionToJson_eq]
    exact ⟨hexpr.optional he, noDeeper_readLine.field hline, List.forall_mem_nil _⟩

theorem noDeeper_readStmt (fuel : Nat) : NoDeeper (readStmt fuel) Stmt.toJson := by
  induction fuel with
  | zero => exact fun j => .error _
  | succ fuel ih =>
    intro j
    refine (Stmt.family.gives_split j).bind ?_
    rintro ⟨kind, parts⟩ hparts
    exact (gives_stmtOfParts (noDeeper_readExpr fuel) ih kind parts).mono fun s hs => hs.trans hparts

end TreeWalk
