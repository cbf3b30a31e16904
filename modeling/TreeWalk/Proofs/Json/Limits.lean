import TreeWalk.Proofs.Json.Spelling

/-! What reading a value can give. Whatever the text is, a value that is read nests at most as deep as the
reader allows: every bracket and every brace that is opened takes one from the depth left for what is
inside. -/

namespace TreeWalk

/-! ### Results that are given -/

/-- Every result that is given has the property; an error has none to show. -/
def Gives {ε α : Type} (x : Except ε α) (p : α → Prop) : Prop := ∀ a, x = .ok a → p a

namespace Gives

variable {ε α β : Type} {p q : α → Prop} {r : β → Prop}

theorem ok {a : α} (h : p a) : Gives (.ok a : Except ε α) p := by
  rintro b ⟨⟩
  exact h

theorem error (e : ε) : Gives (.error e : Except ε α) p := by
  rintro a ⟨⟩

theorem mono {x : Except ε α} (h : Gives x q) (hqp : ∀ a, q a → p a) : Gives x p :=
  fun a ha => hqp a (h a ha)

theorem bind {x : Except ε α} {f : α → Except ε β} (hx : Gives x q) (hf : ∀ a, q a → Gives (f a) r) :
    Gives (x >>= f) r := by
  cases x with
  | error e => exact error e
  | ok a => exact hf a (hx a rfl)

/-- Nothing needs to be known of the first result. -/
theorem bind_any {x : Except ε α} {f : α → Except ε β} (hf : ∀ a, Gives (f a) r) : Gives (x >>= f) r :=
  bind (q := fun _ => True) (fun _ _ => trivial) fun a _ => hf a

end Gives

namespace Json

/-! ### Values -/

theorem gives_readNumber (cs : List Char) : Gives (readNumber cs) fun r => r.1.depth = 0 := by
  refine .bind_any ?_
  rintro ⟨t, rest⟩
  dsimp only
  cases h : t.value? with
  | none => exact .error _
  | some j =>
    refine .ok ?_
    obtain ⟨n, rfl⟩ | ⟨x, rfl⟩ := NumberText.value?_eq_some h <;> rfl

theorem gives_readScalar (c : Char) (cs : List Char) : Gives (readScalar c cs) fun r => r.1.depth = 0 := by
  unfold readScalar
  split
  · exact .bind_any fun rest => .ok rfl
  · exact .bind_any fun rest => .ok rfl
  · exact .bind_any fun rest => .ok rfl
  · exact .bind_any fun r => .ok rfl
  · split_ifs
    · exact gives_readNumber _
    · exact .error _

/-- With this fuel, no value is read that nests deeper than allowed, nor are the items of an array or the
members of an object whose bracket or brace was seen. -/
structure StaysWithin (fuel : Nat) : Prop where
  value : ∀ d cs, Gives (readValue fuel d cs) fun r => r.1.depth ≤ d
  item : ∀ d acc cs, (∀ j ∈ acc, j.depth ≤ d) → Gives (readItem fuel d acc cs) fun r => r.1.depth ≤ d + 1
  member : ∀ d acc cs, (∀ m ∈ acc, m.2.depth ≤ d) →
    Gives (readMember fuel d acc cs) fun r => r.1.depth ≤ d + 1

theorem StaysWithin.readItem {fuel : Nat} (h : StaysWithin fuel) (d : Nat) (acc : List Json) (cs : List Char)
    (hacc : ∀ j ∈ acc, j.depth ≤ d) : Gives (readItem (fuel + 1) d acc cs) fun r => r.1.depth ≤ d + 1 := by
  rw [Json.readItem]
  refine (h.value d cs).bind fun r hr => ?_
  have hall : ∀ j ∈ r.1 :: acc, j.depth ≤ d := List.forall_mem_cons.2 ⟨hr, hacc⟩
  dsimp only
  split
  · exact .ok (depth_array_le fun j hj => hall j (List.mem_reverse.1 hj))
  · exact h.item d _ _ hall
  · exact .error _
  · exact .error _

theorem StaysWithin.readMember {fuel : Nat} (h : StaysWithin fuel) (d : Nat) (acc : List (String × Json))
    (cs : List Char) (hacc : ∀ m ∈ acc, m.2.depth ≤ d) :
    Gives (readMember (fuel + 1) d acc cs) fun r => r.1.depth ≤ d + 1 := by
  rw [Json.readMember]
  refine .bind_any fun k => (h.value d k.2).bind fun r hr => ?_
  have hall : ∀ m ∈ (k.1, r.1) :: acc, m.2.depth ≤ d := List.forall_mem_cons.2 ⟨hr, hacc⟩
  dsimp only
  split
  · exact .ok (depth_object_le fun m hm => hall m (List.mem_reverse.1 hm))
  · exact h.member d _ _ hall
  · exact .error _
  · exact .error _

theorem StaysWithin.readValue {fuel : Nat} (h : StaysWithin fuel) (d : Nat) (cs : List Char) :
    Gives (readValue (fuel + 1) d cs) fun r => r.1.depth ≤ d := by
  rw [Json.readValue]
  split
  · exact .error _
  · cases d with
    | zero => exact .error _
    | succ d =>
      dsimp only
      split
      · exact .ok (depth_array_le (List.forall_mem_nil _))
      · exact .error _
      · exact h.item d [] _ (List.forall_mem_nil _)
  · cases d with
    | zero => exact .error _
    | succ d =>
      dsimp only
      split
      · exact .ok (depth_object_le (List.forall_mem_nil _))
      · exact h.member d [] _ (List.forall_mem_nil _)
  · exact (gives_readScalar _ _).mono fun r hr => by omega

theorem staysWithin (fuel : Nat) : StaysWithin fuel := by
  induction fuel with
  | zero =>
    refine ⟨fun d cs => ?_, fun d acc cs _ => ?_, fun d acc cs _ => ?_⟩
    · rw [readValue]
      exact .error _
    · rw [readItem]
      exact .error _
    · rw [readMember]
      exact .error _
  | succ fuel ih => exact ⟨ih.readValue, ih.readItem, ih.readMember⟩

/-- A value that is read nests at most as deep as allowed. -/
theorem gives_read (d : Nat) (cs : List Char) : Gives (read d cs) fun r => r.1.depth ≤ d :=
  (staysWithin _).value d cs

end Json

end TreeWalk
