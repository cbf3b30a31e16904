import TreeWalk.Proofs.Tree.Decoding
import TreeWalk.Proofs.Tree.RoundTrip

/-! Programs stored again after they were read. Whatever the text looked like, the program read from it is
written within the limit of the reader: each outermost record takes one bracket or brace from what is left,
as an object and as an array, and the record that is written takes one brace for it. What is passed over
does not count, as it is not written again. -/

namespace TreeWalk

namespace Load

theorem gives_ofJson {α : Type} {x : Except Json.Flaw α} {p : α → Prop} (h : Gives x p) :
    Gives (ofJson x) p := by
  cases x with
  | ok a => exact .ok (h a rfl)
  | error flaw => exact .error _

theorem gives_ofTree {α : Type} {x : Except Mismatch α} {p : α → Prop} (h : Gives x p) :
    Gives (ofTree x) p := by
  cases x with
  | ok a => exact .ok (h a rfl)
  | error mismatch => exact .error _

/-! ### Outermost nodes -/

section Outermost

variable {κ : Type} (family : Family κ) {d : Nat}

theorem gives_readMember (kind : Option κ) {acc : List (String × Json)} (hacc : ∀ m ∈ acc, m.2.depth ≤ d)
    (key : String) (cs : List Char) :
    Gives (readMember family d kind acc key cs) fun r => ∀ m ∈ r.1.2, m.2.depth ≤ d := by
  unfold readMember
  split_ifs
  · cases kind with
    | some kind => exact .error _
    | none => exact .bind_any fun rest => .bind_any fun r => .ok hacc
  · refine .bind_any fun rest => (gives_ofJson (Json.gives_read d rest)).bind fun r hr => ?_
    exact .ok (List.forall_mem_cons.2 ⟨hr, hacc⟩)

/-- Members are read one level below the node that they make up. -/
theorem gives_readMembers (fuel : Nat) (kind : Option κ) {acc : List (String × Json)}
    (hacc : ∀ m ∈ acc, m.2.depth ≤ d) (cs : List Char) :
    Gives (readMembers family fuel d kind acc cs) fun r => r.1.2.toJson.depth ≤ d + 1 := by
  induction fuel generalizing kind acc cs with
  | zero => exact .error _
  | succ fuel ih =>
    rw [readMembers]
    refine .bind_any fun k => (gives_readMember family kind hacc k.1 k.2).bind fun r hr => ?_
    dsimp only
    split
    · split
      · exact .ok (Json.depth_object_le fun m hm => hr m (List.mem_reverse.1 hm))
      · exact .error _
    · exact ih _ hr _
    · exact .error _
    · exact .error _

theorem gives_readItems (fuel : Nat) {acc : List Json} (hacc : ∀ j ∈ acc, j.depth ≤ d) (cs : List Char) :
    Gives (readItems fuel d acc cs) fun r => (Json.array r.1).depth ≤ d + 1 := by
  induction fuel generalizing acc cs with
  | zero => exact .error _
  | succ fuel ih =>
    rw [readItems]
    split
    · exact .ok (Json.depth_array_le fun j hj => hacc j (List.mem_reverse.1 hj))
    · refine (gives_ofJson (Json.gives_read d _)).bind fun r hr => ?_
      exact ih (List.forall_mem_cons.2 ⟨hr, hacc⟩) _
    · exact .error _
    · exact .error _

theorem gives_readNode (d : Nat) (cs : List Char) :
    Gives (readNode family d cs) fun r => r.1.2.toJson.depth ≤ d := by
  unfold readNode
  split
  · exact .error _
  · exact .error _
  · split
    · exact .error _
    · exact .error _
    · refine .bind_any fun k => (gives_readItems _ (List.forall_mem_nil _) k.2).bind fun r hr => ?_
      exact .ok hr
  · split
    · exact .error _
    · exact gives_readMembers family _ none (List.forall_mem_nil _) _
  · exact .error _

end Outermost

/-! ### Programs -/

theorem gives_readStatement (d : Nat) (cs : List Char) :
    Gives (readStatement d cs) fun r => r.1.toJson.depth ≤ d := by
  refine (gives_readNode Stmt.family d cs).bind fun r hr => ?_
  have hstmt := gives_stmtOfParts (noDeeper_readExpr Json.nestingLimit) (noDeeper_readStmt Json.nestingLimit)
    r.1.1 r.1.2
  exact (gives_ofTree hstmt).bind fun s hs => .ok (hs.trans hr)

theorem gives_readStatements {d : Nat} (fuel : Nat) {acc : List Stmt} (hacc : ∀ s ∈ acc, s.toJson.depth ≤ d)
    (cs : List Char) : Gives (readStatements fuel d acc cs) fun r => ∀ s ∈ r.1, s.toJson.depth ≤ d := by
  induction fuel generalizing acc cs with
  | zero => exact .error _
  | succ fuel ih =>
    rw [readStatements]
    refine (gives_readStatement d cs).bind fun r hr => ?_
    have hall : ∀ s ∈ r.1 :: acc, s.toJson.depth ≤ d := List.forall_mem_cons.2 ⟨hr, hacc⟩
    dsimp only
    split
    · exact .ok fun s hs => hall s (List.mem_reverse.1 hs)
    · exact ih hall _
    · exact .error _
    · exact .error _

/-- The statements that are read fit into a list that takes one of the levels left. -/
theorem gives_readStatementList (d : Nat) (cs : List Char) :
    Gives (readStatementList d cs) fun r => (Json.array (Stmt.listToJson r.1)).depth ≤ d := by
  unfold readStatementList
  split
  · exact .error _
  · split
    · exact .ok (Nat.succ_le_succ (Nat.zero_le _))
    · exact .error _
    · refine (gives_readStatements _ (List.forall_mem_nil _) _).mono fun r hr => ?_
      rw [Stmt.listToJson_eq]
      exact Json.depth_array_le (List.forall_mem_map.2 hr)
  · exact .error _

theorem gives_readProgramMember {d : Nat} {found : Option Program}
    (hfound : ∀ u ∈ found, (Json.array (Stmt.listToJson u)).depth ≤ d) (key : String) (cs : List Char) :
    Gives (readProgramMember d found key cs) fun r =>
      ∀ u ∈ r.1, (Json.array (Stmt.listToJson u)).depth ≤ d := by
  unfold readProgramMember
  split_ifs
  · cases found with
    | some u => exact .error _
    | none =>
      refine .bind_any fun rest => (gives_readStatementList d rest).bind fun r hr => .ok ?_
      rintro u ⟨⟩
      exact hr
  · exact .bind_any fun rest => .bind_any fun rest => .ok hfound

theorem gives_readProgramMembers {d : Nat} (fuel : Nat) {found : Option Program}
    (hfound : ∀ u ∈ found, (Json.array (Stmt.listToJson u)).depth ≤ d) (cs : List Char) :
    Gives (readProgramMembers fuel d found cs) fun r => (Json.array (Stmt.listToJson r.1)).depth ≤ d := by
  induction fuel generalizing found cs with
  | zero => exact .error _
  | succ fuel ih =>
    rw [readProgramMembers]
    refine .bind_any fun k => (gives_readProgramMember hfound k.1 k.2).bind fun r hr => ?_
    dsimp only
    split
    · split
      · next u hu => exact .ok (hr u hu)
      · exact .error _
    · exact ih hr _
    · exact .error _
    · exact .error _

theorem gives_readProgramItem (d : Nat) (cs : List Char) :
    Gives (readProgramItem d cs) fun r => (Json.array (Stmt.listToJson r.1)).depth ≤ d := by
  refine (gives_readStatementList d cs).bind fun r hr => ?_
  dsimp only
  split
  · exact .ok hr
  · exact .error _
  · exact .error _

/-- A program that is read is written within the limit. -/
theorem gives_readProgram (cs : List Char) :
    Gives (readProgram cs) fun r => r.1.toJson.depth ≤ Json.nestingLimit := by
  unfold readProgram
  split
  · next hlimit =>
    rw [hlimit]
    split
    · exact .error _
    · exact .error _
    · exact (gives_readProgramItem _ _).mono fun r hr => Json.depth_object_le (by simpa using hr)
  · next hlimit =>
    rw [hlimit]
    split
    · exact .error _
    · refine (gives_readProgramMembers _ ?_ _).mono fun r hr => Json.depth_object_le (by simpa using hr)
      rintro u ⟨⟩
  · exact .error _

end Load

theorem Program.depth_toJson_le_of_load {text : String} {u : Program} (h : Program.load text = .ok u) :
    u.toJson.depth ≤ Json.nestingLimit := by
  refine (Load.gives_readProgram text.toList).bind (r := fun u => u.toJson.depth ≤ Json.nestingLimit) ?_ u h
  intro r hr
  dsimp only
  split_ifs
  · exact .ok hr
  · exact .error _

/-- A program that can be read is written within the limit of the reader. Without doubles it can be stored
and read again, and is the same program then. -/
theorem Program.load_save_of_load {text : String} {u : Program} (h : Program.load text = .ok u) :
    u.toJson.depth ≤ Json.nestingLimit ∧
      (u.isDoubleFree → Json.nestingDepth u.save ≤ Json.nestingLimit ∧ Program.load u.save = .ok u) := by
  have hdepth := depth_toJson_le_of_load h
  refine ⟨hdepth, fun hfree => ⟨?_, ?_⟩⟩
  · rw [Program.save, (isPlain_toJson hfree).nestingDepth_pretty]
    exact hdepth
  · have hread := Load.readProgram_toJson hfree []
    rw [List.append_nil, if_pos hdepth] at hread
    rw [Program.load, Load.whole, Program.save, Json.pretty, String.toList_ofList, hread]
    rfl

/-! ### A text that nests deeper than the limit -/

def nested (n : Nat) : Json := (fun j => Json.array [j])^[n] .null

def nestedLexemes (n : Nat) : List Json.Lexeme :=
  (fun ls => Json.bracketed '[' ']' [ls])^[n] ["null".toList]

theorem spelling_nested (n : Nat) : Json.Spelling (nested n) (nestedLexemes n) := by
  induction n with
  | zero => exact .scalar .null
  | succ n ih =>
    rw [nested, nestedLexemes, Function.iterate_succ_apply', Function.iterate_succ_apply']
    exact .array (List.forall_mem_singleton.2 ih : ∀ i ∈ [(nested n, nestedLexemes n)], _)

theorem depth_nested (n : Nat) : (nested n).depth = n := by
  induction n with
  | zero => rfl
  | succ n ih =>
    rw [nested, Function.iterate_succ_apply', Json.depth, Json.itemsDepth, Json.itemsDepth, Nat.max_zero]
    exact congrArg (· + 1) ih

/-- A nested note stands before the statements. -/
def notedMembers (n : Nat) : List Json.Member :=
  [⟨"note", Json.quote "note", nested n, nestedLexemes n⟩,
    Json.prettyMember ("statements", .array [variedDeclaration, variedFunction])]

def notedLexemes (n : Nat) : List Json.Lexeme :=
  Json.bracketed '\x7b' '\x7d' ((notedMembers n).map Json.Member.lexemes)

def notedText (n : Nat) : String := String.ofList ((notedLexemes n).flatMap ([' '] ++ ·))

theorem spelling_noted (n : Nat) :
    Json.Spelling (.object ((notedMembers n).map Json.Member.entry)) (notedLexemes n) := by
  have hnames : ∀ m ∈ notedMembers n, Json.QuotedAs m.key m.name := by
    simp only [notedMembers, List.forall_mem_cons]
    exact ⟨Json.quotedAs_quote _, Json.quotedAs_quote _, List.forall_mem_nil _⟩
  have hbodies : ∀ m ∈ notedMembers n, Json.Spelling m.value m.body := by
    simp only [notedMembers, List.forall_mem_cons]
    exact ⟨spelling_nested n, isPlain_varied.spelling, List.forall_mem_nil _⟩
  exact .object hnames hbodies

theorem spaced_noted (n : Nat) : Json.Spaced (notedLexemes n) (notedText n).toList := by
  rw [notedText, String.toList_ofList]
  exact Json.spaced_flatMap (by decide) _

/-- The note is passed over, however deep it nests. -/
theorem Program.load_notedText (n : Nat) : Program.load (notedText n) = .ok variedProgram := by
  have hother : "note" ≠ Load.statementsKey := by decide
  have hmembers : MembersOf [(Load.statementsKey, .array [variedDeclaration, variedFunction])]
      ((notedMembers n).map Json.Member.entry) :=
    membersOf_reverse [(Load.statementsKey, _)] (List.Sublist.refl _) (fun f hf hn => absurd hf hn)
      (List.forall_mem_singleton.2 hother)
  have hread := Load.readProgram_eq (.cons form_variedDeclaration (.cons form_variedFunction .nil))
    (.object hmembers) (spelling_noted n) (spaced_noted n) []
  rw [List.append_nil, if_pos (by decide)] at hread
  rw [Program.load, Load.whole, hread]
  rfl

theorem nestingDepth_notedText (n : Nat) : n < Json.nestingDepth (notedText n) := by
  rw [(spelling_noted n).nestingDepth_eq (spaced_noted n) Json.isBlanks_nil (List.append_nil _).symm]
  have hnote := Json.depth_lt_object (List.mem_map_of_mem (f := Json.Member.entry)
    (List.mem_cons_self : _ ∈ notedMembers n))
  rwa [Json.Member.entry, depth_nested] at hnote

theorem Program.load_save_notedText :
    Json.nestingLimit < Json.nestingDepth (notedText 1000) ∧
      Program.load (notedText 1000) = .ok variedProgram ∧
      variedProgram.toJson.depth ≤ Json.nestingLimit ∧ variedProgram.isDoubleFree ∧
      Json.nestingDepth variedProgram.save ≤ Json.nestingLimit ∧
      Program.load variedProgram.save = .ok variedProgram := by
  have hfree : variedProgram.isDoubleFree := by decide
  have hlimit : Json.nestingLimit < 1000 := by decide
  obtain ⟨hdepth, hsave⟩ := Program.load_save_of_load (load_notedText 1000)
  exact ⟨hlimit.trans (nestingDepth_notedText 1000), load_notedText 1000, hdepth, hfree, hsave hfree⟩

end TreeWalk
