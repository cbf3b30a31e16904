import TreeWalk.Proofs.Tree.Codec
import TreeWalk.Proofs.Tree.Loading

/-! The texts of a program. A text of a program denotes a value in one of the forms of the program, so it
may differ from the stored text in the order of members, in members of other names, in records written as
arrays, in nulls that are left out or written as objects, in escapes and in blanks. All texts of a program
are read as the program. -/

namespace TreeWalk

/-- How a program may be written. -/
def Program.Form (u : Program) (j : Json) : Prop :=
  ∃ js, List.Forall₂ Stmt.Form u js ∧ RecordForm [(Load.statementsKey, .array js)] j

/-- The text denotes a value in one of the forms of the program. -/
def Program.IsText (u : Program) (text : String) : Prop :=
  ∃ j ls cs blanks, u.Form j ∧ Json.Spelling j ls ∧ Json.Spaced ls cs ∧ Json.IsBlanks blanks ∧
    text.toList = cs ++ blanks

theorem Program.form_toJson (u : Program) : u.Form u.toJson :=
  ⟨_, Stmt.forms_listToJson u, .object (membersOf_self _)⟩

/-- The text in which a program without doubles is stored is one of its texts. -/
theorem Program.isText_save {u : Program} (h : u.isDoubleFree) : u.IsText u.save := by
  have hplain := Program.isPlain_toJson h
  refine ⟨_, _, _, [], u.form_toJson, hplain.spelling, hplain.isSpaced 0, Json.isBlanks_nil, ?_⟩
  rw [Program.save, Json.pretty, String.toList_ofList, List.append_nil]

/-- A program without doubles is stored in one of its texts, and every text of a program is read as the
program, if its brackets and braces nest at most as deep as the limit. -/
theorem Program.load_text (u : Program) :
    (u.isDoubleFree → u.IsText u.save) ∧
      ∀ text, u.IsText text → Json.nestingDepth text ≤ Json.nestingLimit → Program.load text = .ok u := by
  refine ⟨Program.isText_save, fun text htext hd => ?_⟩
  obtain ⟨j, ls, cs, blanks, ⟨js, hu, hj⟩, hs, hcs, hb, heq⟩ := htext
  have hstatements : (Json.array js).depth < j.depth := hj.depth_lt _ List.mem_cons_self
  have hdepth : (Json.array js).depth ≤ Json.nestingLimit - 1 := by
    rw [hs.nestingDepth_eq hcs hb heq] at hd
    omega
  have hread : Load.readProgram text.toList = .ok (u, blanks) := by
    rw [heq, Load.readProgram_eq hu hj hs hcs, if_pos hdepth]
  have hrest : Json.skipBlank blanks = [] := by
    have hskip := hb.skipBlank []
    rwa [List.append_nil] at hskip
  simp only [Program.load, Load.whole, hread, bind, Except.bind, hrest, List.isEmpty_nil, if_true]

/-! ### A text with all these liberties -/

def variedProgram : Program :=
  [.declare "x" .integer none 1,
    .function "f" .void [⟨"p", .string, 5⟩] [.ret (some (.literal .null 8)) 8] 7 4]

/-- The declaration lacks its initializer. -/
def variedDeclaration : Json :=
  .object [("seen", .array [.bool true]), ("line", .integer 1), ("var_type", .object [("integer", .null)]),
    ("name", .string "x"), ("kind", .string "variable")]

def variedParameter : Json :=
  .object [("kind", .integer 0), ("line", .integer 5), ("param_type", .string "string"), ("name", .string "p")]

def variedReturn : Json :=
  .array [.string "return", .array [.string "literal", .object [("null", .null)], .integer 8], .integer 8]

def variedFunction : Json :=
  .array [.string "function", .string "f", .string "void", .array [variedParameter],
    .array [.array [variedReturn], .integer 7], .integer 4]

theorem form_variedDeclaration : Stmt.Form (.declare "x" .integer none 1) variedDeclaration := by
  refine .node (.declare "x" 1 .object .none) (.object ?_)
  show MembersOf [("kind", .string "variable"), ("name", .string "x"),
    ("var_type", .object [("integer", .null)]), ("initializer", .null), ("line", .integer 1)] _
  exact membersOf_reverse [("kind", .string "variable"), ("name", .string "x"),
    ("var_type", .object [("integer", .null)]), ("line", .integer 1)] (by simp) (by simp) (by decide)

theorem form_variedFunction :
    Stmt.Form (.function "f" .void [⟨"p", .string, 5⟩] [.ret (some (.literal .null 8)) 8] 7 4)
      variedFunction := by
  have hparameter : Parameter.Form ⟨"p", .string, 5⟩ variedParameter :=
    ⟨_, .name, .object (membersOf_reverse _ (List.Sublist.refl _) (by simp) (by decide))⟩
  have hvalue : Expr.Form (.literal .null 8)
      (.array [.string "literal", .object [("null", .null)], .integer 8]) :=
    .node (.literal 8 .nullObject) .array
  have hreturn : Stmt.Form (.ret (some (.literal .null 8)) 8) variedReturn :=
    .node (.ret 8 (.some hvalue)) .array
  exact .node (.function "f" 7 4 .name (.cons hparameter .nil) (.cons hreturn .nil) .array) .array

/-- A note stands before the statements. -/
def variedMembers : List Json.Member :=
  [⟨"note", Json.quote "note", .array [.string "😀", .double 0],
      Json.bracketed '[' ']' [["\"\\ud83d\\ude00\"".toList], ["2.5E-9999999999".toList]]⟩,
    Json.prettyMember ("statements", .array [variedDeclaration, variedFunction])]

def variedLexemes : List Json.Lexeme := Json.bracketed '\x7b' '\x7d' (variedMembers.map Json.Member.lexemes)

def variedText : String := String.ofList (variedLexemes.flatMap ([' '] ++ ·) ++ ['\n'])

theorem spelling_note : Json.Spelling (.array [.string "😀", .double 0])
    (Json.bracketed '[' ']' [["\"\\ud83d\\ude00\"".toList], ["2.5E-9999999999".toList]]) := by
  have hstring : Json.ScalarText (.string "😀") "\"\\ud83d\\ude00\"".toList := by
    have hchar : "😀".toList = [Json.joinPair 0xD83D 0xDE00] := by decide
    refine .string ⟨"\\ud83d\\ude00".toList, ?_, rfl⟩
    rw [hchar]
    exact .cons (.pair rfl rfl rfl rfl) .nil
  have hnumber : Json.ScalarText (.double 0) "2.5E-9999999999".toList := by
    refine .number (t := ⟨false, ['2'], ['5'], some (true, "9999999999".toList)⟩) ⟨?_, ?_, ?_⟩ rfl
    · decide
    · simp
    · exact ⟨_, _, .some (by decide), .below (.inr rfl) (by decide), rfl⟩
  have hitems : ∀ i ∈ [(Json.string "😀", ["\"\\ud83d\\ude00\"".toList]),
      (Json.double 0, ["2.5E-9999999999".toList])], Json.Spelling i.1 i.2 := by
    simp only [List.forall_mem_cons]
    exact ⟨.scalar hstring, .scalar hnumber, List.forall_mem_nil _⟩
  exact .array hitems

theorem isPlain_varied : Json.IsPlain (.array [variedDeclaration, variedFunction]) := by
  simp (disch := decide) [variedDeclaration, variedFunction, variedParameter, variedReturn, Json.IsPlain.null,
    Json.IsPlain.bool, Json.IsPlain.string, Json.IsPlain.integer]

def variedJson : Json := .object (variedMembers.map Json.Member.entry)

theorem form_variedJson : variedProgram.Form variedJson := by
  have hmembers : MembersOf [(Load.statementsKey, .array [variedDeclaration, variedFunction])]
      (variedMembers.map Json.Member.entry) :=
    membersOf_reverse [(Load.statementsKey, _)] (List.Sublist.refl _) (fun f hf hn => absurd hf hn) (by decide)
  exact ⟨_, .cons form_variedDeclaration (.cons form_variedFunction .nil), .object hmembers⟩

theorem spelling_variedJson : Json.Spelling variedJson variedLexemes := by
  have hnames : ∀ m ∈ variedMembers, Json.QuotedAs m.key m.name := by
    simp only [variedMembers, List.forall_mem_cons]
    exact ⟨Json.quotedAs_quote _, Json.quotedAs_quote _, List.forall_mem_nil _⟩
  have hbodies : ∀ m ∈ variedMembers, Json.Spelling m.value m.body := by
    simp only [variedMembers, List.forall_mem_cons]
    exact ⟨spelling_note, isPlain_varied.spelling, List.forall_mem_nil _⟩
  exact .object hnames hbodies

theorem Program.load_variedText :
    variedProgram.isDoubleFree ∧ variedProgram.IsText variedProgram.save ∧ variedProgram.IsText variedText ∧
      Json.nestingDepth variedText ≤ Json.nestingLimit ∧ Program.load variedText = .ok variedProgram := by
  have hfree : variedProgram.isDoubleFree := by decide
  have hspaced : Json.Spaced variedLexemes (variedLexemes.flatMap ([' '] ++ ·)) :=
    Json.spaced_flatMap (by decide) _
  have hend : Json.IsBlanks ['\n'] := by decide
  have heq : variedText.toList = variedLexemes.flatMap ([' '] ++ ·) ++ ['\n'] := String.toList_ofList
  have htext : variedProgram.IsText variedText :=
    ⟨_, _, _, _, form_variedJson, spelling_variedJson, hspaced, hend, heq⟩
  have hdepth : Json.nestingDepth variedText ≤ Json.nestingLimit := by
    rw [spelling_variedJson.nestingDepth_eq hspaced hend heq]
    decide
  obtain ⟨hsave, hload⟩ := Program.load_text variedProgram
  exact ⟨hfree, hsave hfree, htext, hdepth, hload _ htext hdepth⟩

end TreeWalk
