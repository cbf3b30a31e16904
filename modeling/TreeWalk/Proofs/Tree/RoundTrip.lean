import TreeWalk.Proofs.Tree.Texts

/-! Programs read back from the text in which they are stored. The text is refused if its brackets and
braces nest deeper than the limit, and otherwise read as the program. -/

namespace TreeWalk

open Json (writePretty)

namespace Load

/-- A program is read from its text, if it nests at most as deep as the limit. -/
theorem readProgram_toJson {u : Program} (hu : u.isDoubleFree) (rest : List Char) :
    readProgram (writePretty 0 u.toJson ++ rest) =
      if u.toJson.depth ≤ Json.nestingLimit then .ok (u, rest) else .error (.flaw .malformed) := by
  have hplain := Program.isPlain_toJson hu
  have hdepth : u.toJson.depth ≤ Json.nestingLimit ↔
      (Json.array (Stmt.listToJson u)).depth ≤ Json.nestingLimit - 1 := by
    simp only [Program.toJson, Json.depth, Json.membersDepth, Json.nestingLimit]
    omega
  simp only [hdepth]
  exact readProgram_eq (Stmt.forms_listToJson u) (.object (membersOf_self _)) hplain.spelling
    (hplain.isSpaced 0) rest

end Load

/-- A program without doubles is read back from the text in which it is stored, if the brackets and braces
of that text nest at most as deep as the limit. Otherwise the text is refused. -/
theorem Program.load_save {u : Program} (h : u.isDoubleFree) :
    Program.load u.save =
      if Json.nestingDepth u.save ≤ Json.nestingLimit then .ok u else .error (.flaw .malformed) := by
  have hread := Load.readProgram_toJson h []
  rw [List.append_nil] at hread
  rw [Program.save, (Program.isPlain_toJson h).nestingDepth_pretty, Program.load, Load.whole, Json.pretty,
    String.toList_ofList, hread]
  split_ifs <;> rfl

/-- A value printed inside blocks. -/
def printInBlocks (blocks : Nat) (value : Expr) : Program :=
  [(fun s => Stmt.block [s] 2)^[blocks] (.print value 1)]

/-- Sixty-one blocks around a printed string use the limit up. With parentheses around the string, one
brace too many is open. -/
theorem load_save_printInBlocks :
    let value : Expr := .literal (.string "\"[\\é\u0007]\x7b\"") 4294967295
    let fitting := printInBlocks 61 value
    let tooDeep := printInBlocks 61 (.grouping value 0)
    fitting.isDoubleFree ∧ tooDeep.isDoubleFree ∧ Program.load fitting.save = .ok fitting ∧
      Program.load tooDeep.save = .error (.flaw .malformed) := by
  intro value fitting tooDeep
  have hfitting : fitting.isDoubleFree := by decide
  have htooDeep : tooDeep.isDoubleFree := by decide
  have hle : Json.nestingDepth fitting.save ≤ Json.nestingLimit := by
    rw [Program.save, (Program.isPlain_toJson hfitting).nestingDepth_pretty]
    decide +kernel
  have hlt : ¬ Json.nestingDepth tooDeep.save ≤ Json.nestingLimit := by
    rw [Program.save, (Program.isPlain_toJson htooDeep).nestingDepth_pretty]
    decide +kernel
  exact ⟨hfitting, htooDeep, (Program.load_save hfitting).trans (if_pos hle),
    (Program.load_save htooDeep).trans (if_neg hlt)⟩

end TreeWalk
