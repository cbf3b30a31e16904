import TreeWalk.Proofs.Layout.Breaks
import TreeWalk.Proofs.Scoping.Statements

/-! What a line is to the statements of a program. A statement has a first line, an `if` with an `else` has
a line for it, and what stands in braces has a closing line; a branch in braces shares its first line with
the head of its `if`, and its closing line with the `else` that may follow. The parts of all statements in
source order are spread over the lines, and a line is as deep as its parts: the number of blocks, bodies
and branches without braces around their statements. The other lines are empty and stand beside functions
at the top level. -/

namespace TreeWalk

open Scoping Printer

/-! ### Levels -/

namespace Scoping

def Layer.isList : Layer → Bool
  | .list _ _ => true
  | .function _ _ => false

/-- The number of blocks, bodies and branches without braces around a place: the lists of statements, less
that of the program. -/
def Place.levels (p : Place) : Nat := p.dropLast.countP Layer.isList

theorem Place.levels_list {p : Place} (hp : p ≠ []) (ss : List Stmt) (i : Nat) :
    Place.levels (.list ss i :: p) = p.levels + 1 := by
  rw [levels, List.dropLast_cons_of_ne_nil hp, List.countP_cons_of_pos rfl, levels]

theorem Place.levels_function {p : Place} (hp : p ≠ []) (ps : List Parameter) (body : List Stmt) :
    Place.levels (.function ps body :: p) = p.levels := by
  rw [levels, List.dropLast_cons_of_ne_nil hp, List.countP_cons_of_neg (by simp [Layer.isList]), levels]

end Scoping

/-! ### Parts -/

namespace Printer

/-- What a line can be to a statement. -/
inductive Part where
  /-- The line that the statement starts on. -/
  | first
  /-- The line of its `else`. -/
  | otherwise
  /-- The line of its closing brace. -/
  | closing
deriving DecidableEq

/-- A part of a statement of a program. -/
structure Role where
  part : Part
  site : StmtSite

/-- A line, and the parts of statements that are on it, in source order. -/
structure Entry where
  line : SourceLine
  roles : List Role

end Printer

namespace Stmt

/-- The place of a branch: a block has that of its `if`, any other statement is in a list of its own. -/
def branchPlace (p : Place) (branch : Stmt) : Place :=
  if branch.isBlock then p else .list [branch] 0 :: p

mutual

/-- The parts of a statement at a place and of the statements in it, in source order. -/
def tour (p : Place) : Stmt → List Role
  | .function x t ps body k l =>
    ⟨.first, p, .function x t ps body k l⟩ :: (listTour (.function ps body :: p) body 0 body ++
      [⟨.closing, p, .function x t ps body k l⟩])
  | .block ss l =>
    ⟨.first, p, .block ss l⟩ :: (listTour p ss 0 ss ++ [⟨.closing, p, .block ss l⟩])
  | .expression e l => [⟨.first, p, .expression e l⟩]
  | .branch c s o l =>
    ⟨.first, p, .branch c s o l⟩ :: (s.tour (s.branchPlace p) ++ elseTour ⟨p, .branch c s o l⟩ o)
  | .print e l => [⟨.first, p, .print e l⟩]
  | .declare x t e l => [⟨.first, p, .declare x t e l⟩]
  | .loop c body k l =>
    ⟨.first, p, .loop c body k l⟩ :: (listTour p body 0 body ++ [⟨.closing, p, .loop c body k l⟩])
  | .ret e l => [⟨.first, p, .ret e l⟩]

/-- The parts of the statements of a list from an index on. -/
def listTour (p : Place) (statements : List Stmt) (index : Nat) : List Stmt → List Role
  | [] => []
  | s :: rest => s.tour (.list statements index :: p) ++ listTour p statements (index + 1) rest

/-- The `else` of a statement and the parts of its branch. -/
def elseTour (site : StmtSite) : Option Stmt → List Role
  | none => []
  | some s => ⟨.otherwise, site⟩ :: s.tour (s.branchPlace site.place)

end

/-- The text that a statement starts with. -/
def head : Stmt → String
  | .function x t ps _ _ _ => signature x t ps
  | .block _ _ => "\x7b"
  | .expression e _ => spell e ++ ";"
  | .branch c _ _ _ => "if " ++ parenthesize (spell c)
  | .print e _ => "print " ++ spell e ++ ";"
  | .declare x t none _ => declaration x t ++ ";"
  | .declare x t (some e) _ => declaration x t ++ " = " ++ spell e ++ ";"
  | .loop c _ _ _ => "while " ++ parenthesize (spell c)
  | .ret none _ => "return;"
  | .ret (some e) _ => "return " ++ spell e ++ ";"

end Stmt

namespace Printer

/-- The text has the part. A block may open at the end of a line, any other statement starts its line. -/
def Role.IsIn (role : Role) (text : String) : Prop :=
  match role.part with
  | .first =>
    if role.site.node.isBlock then ∃ start, text = start ++ role.site.node.head
    else ∃ rest, text = role.site.node.head ++ rest
  | .otherwise => ∃ start rest, text = start ++ "else" ++ rest
  | .closing => ∃ rest, text = "\x7d" ++ rest

/-- The line has the part, at the depth of its statement. -/
def Role.Fits (role : Role) (line : SourceLine) : Prop :=
  line.depth = role.site.place.levels ∧ role.IsIn line.text

/-- The line has at least one part, and all its parts fit. -/
def Entry.Fits (entry : Entry) : Prop :=
  entry.roles ≠ [] ∧ ∀ role ∈ entry.roles, role.Fits entry.line

/-- The parts are spread over the lines, in order, and at least one is on each line. -/
def Lays (ls : List SourceLine) (roles : List Role) : Prop :=
  ∃ entries : List Entry, entries.map Entry.line = ls ∧ entries.flatMap Entry.roles = roles ∧
    ∀ entry ∈ entries, entry.Fits

namespace Lays

theorem nil : Lays [] [] := ⟨[], rfl, rfl, by simp⟩

theorem append {ls more : List SourceLine} {roles others : List Role} (h : Lays ls roles)
    (hmore : Lays more others) : Lays (ls ++ more) (roles ++ others) := by
  obtain ⟨entries, rfl, rfl, hentries⟩ := h
  obtain ⟨entries', rfl, rfl, hentries'⟩ := hmore
  exact ⟨entries ++ entries', by simp, by simp, List.forall_mem_append.2 ⟨hentries, hentries'⟩⟩

theorem cons {line : SourceLine} {group : List Role} {ls : List SourceLine} {roles : List Role}
    (hfits : Entry.Fits ⟨line, group⟩) (h : Lays ls roles) : Lays (line :: ls) (group ++ roles) := by
  obtain ⟨entries, rfl, rfl, hentries⟩ := h
  exact ⟨⟨line, group⟩ :: entries, rfl, rfl, List.forall_mem_cons.2 ⟨hfits, hentries⟩⟩

theorem single {line : SourceLine} {role : Role} (h : role.Fits line) : Lays [line] [role] := by
  have hfits : Entry.Fits ⟨line, [role]⟩ := ⟨by simp, by simpa using h⟩
  exact nil.cons hfits

end Lays

/-- A line that starts with the statement, which is no block, is its first line. -/
theorem fits_first {s : Stmt} (hs : s.isBlock = false) (p : Place) (rest : String) :
    Role.Fits ⟨.first, p, s⟩ ⟨p.levels, s.head ++ rest⟩ := by
  refine ⟨rfl, ?_⟩
  simp only [Role.IsIn, hs, Bool.false_eq_true, if_false]
  exact ⟨rest, rfl⟩

theorem fits_head {s : Stmt} (hs : s.isBlock = false) (p : Place) :
    Role.Fits ⟨.first, p, s⟩ ⟨p.levels, s.head⟩ := by
  simpa using fits_first hs p ""

theorem fits_closing (s : Stmt) (p : Place) (rest : String) :
    Role.Fits ⟨.closing, p, s⟩ ⟨p.levels, "\x7d" ++ rest⟩ := ⟨rfl, rest, rfl⟩

theorem fits_block {s : Stmt} (hs : s.isBlock) (p : Place) (start : String) :
    Role.Fits ⟨.first, p, s⟩ ⟨p.levels, start ++ "\x7b"⟩ := by
  obtain ⟨ss, k, rfl⟩ := Stmt.isBlock_iff.1 hs
  exact ⟨rfl, start, rfl⟩

/-! ### Statements -/

/-- The lines of the statement have its parts, wherever it stands. -/
def LaysOut (s : Stmt) : Prop := ∀ p : Place, p ≠ [] → Lays (s.lines p.levels) (s.tour p)

theorem lays_list {ss : List Stmt} (h : ∀ s ∈ ss, LaysOut s) {p : Place} {statements : List Stmt}
    {depth : Nat} (hdepth : ∀ i, Place.levels (.list statements i :: p) = depth) (i : Nat) :
    Lays (Stmt.listLines depth ss) (Stmt.listTour p statements i ss) := by
  induction ss generalizing i with
  | nil => exact .nil
  | cons s rest ih =>
    have hs := h s List.mem_cons_self (.list statements i :: p) (List.cons_ne_nil _ _)
    rw [hdepth] at hs
    rw [Stmt.listLines, Stmt.listTour]
    exact hs.append (ih (fun t ht => h t (List.mem_cons_of_mem _ ht)) (i + 1))

/-- A line that opens a body, the lines of the body and the brace. -/
theorem lays_body {s : Stmt} {p q : Place} {text : String} {body : List Stmt}
    (hfirst : Role.Fits ⟨.first, p, s⟩ ⟨p.levels, text⟩) (h : ∀ t ∈ body, LaysOut t)
    (hdepth : ∀ i, Place.levels (.list body i :: q) = p.levels + 1) :
    Lays (⟨p.levels, text⟩ :: (Stmt.listLines (p.levels + 1) body ++ [⟨p.levels, "\x7d"⟩]))
      (⟨.first, p, s⟩ :: (Stmt.listTour q body 0 body ++ [⟨.closing, p, s⟩])) := by
  have hbody := lays_list h hdepth 0
  have hclosing : Lays [⟨p.levels, "\x7d"⟩] [⟨.closing, p, s⟩] := .single (fits_closing s p "")
  exact (Lays.single hfirst).append (hbody.append hclosing)

/-- The part of a branch in braces that stands on the line before its statements. -/
def openingRoles (p : Place) (branch : Stmt) : List Role :=
  if branch.isBlock then [⟨.first, p, branch⟩] else []

/-- The part of a branch in braces that stands on the line after its statements. -/
def closingRoles (p : Place) (branch : Stmt) : List Role :=
  if branch.isBlock then [⟨.closing, p, branch⟩] else []

/-- The statements of a branch are toured as a list, between its braces if it has some. -/
theorem tour_branchPlace (p : Place) (s : Stmt) :
    s.tour (s.branchPlace p) = openingRoles p s ++
      (Stmt.listTour p s.branchStatements 0 s.branchStatements ++ closingRoles p s) := by
  cases hs : s.isBlock with
  | true =>
    obtain ⟨ss, k, rfl⟩ := Stmt.isBlock_iff.1 hs
    simp [Stmt.branchPlace, openingRoles, closingRoles, hs, Stmt.tour, Stmt.branchStatements]
  | false =>
    simp [Stmt.branchPlace, openingRoles, closingRoles, hs, Stmt.branchStatements_lone hs, Stmt.listTour]

theorem lays_closing (p : Place) (branch : Stmt) :
    Lays (branch.closing p.levels) (closingRoles p branch) := by
  unfold Stmt.closing closingRoles
  split
  · exact .single (fits_closing branch p "")
  · exact .nil

theorem fits_openingRoles (p : Place) (branch : Stmt) (start : String) :
    ∀ role ∈ openingRoles p branch, role.Fits ⟨p.levels, start ++ branch.opening⟩ := by
  intro role hrole
  unfold openingRoles at hrole
  split at hrole
  · rename_i hblock
    rw [List.mem_singleton.1 hrole, Stmt.opening, if_pos hblock]
    have hopen : start ++ " \x7b" = start ++ " " ++ "\x7b" := by simp [String.append_assoc]
    rw [hopen]
    exact fits_block hblock p (start ++ " ")
  · simp at hrole

theorem fits_closingRoles (p : Place) (branch : Stmt) (rest : String) :
    ∀ role ∈ closingRoles p branch, role.Fits ⟨p.levels, branch.elseHead ++ rest⟩ := by
  intro role hrole
  unfold closingRoles at hrole
  split at hrole
  · rename_i hblock
    rw [List.mem_singleton.1 hrole, Stmt.elseHead, if_pos hblock, String.append_assoc]
    exact fits_closing branch p (" else" ++ rest)
  · simp at hrole

theorem fits_otherwise (site : StmtSite) (branch : Stmt) (rest : String) :
    Role.Fits ⟨.otherwise, site⟩ ⟨site.place.levels, branch.elseHead ++ rest⟩ := by
  refine ⟨rfl, ?_⟩
  unfold Stmt.elseHead
  split
  · exact ⟨"\x7d ", rest, rfl⟩
  · exact ⟨"", rest, rfl⟩

theorem laysOut (s : Stmt) : LaysOut s := by
  induction s using Stmt.scopeInduct with
  | function x t ps body k l ih =>
    intro p hp
    have hdepth (i : Nat) : Place.levels (.list body i :: .function ps body :: p) = p.levels + 1 := by
      rw [Place.levels_list (List.cons_ne_nil _ _), Place.levels_function hp]
    exact lays_body (fits_first rfl p " \x7b") ih hdepth
  | block ss l ih =>
    intro p hp
    exact lays_body (fits_block rfl p "") ih (Place.levels_list hp ss)
  | branch c s o l ihs iho =>
    intro p hp
    have hfirst := fits_first (s := .branch c s o l) rfl p s.opening
    have hif : Entry.Fits ⟨⟨p.levels, "if " ++ parenthesize (spell c) ++ s.opening⟩,
        ⟨.first, p, .branch c s o l⟩ :: openingRoles p s⟩ :=
      ⟨List.cons_ne_nil _ _, List.forall_mem_cons.2 ⟨hfirst, fits_openingRoles p s _⟩⟩
    have hthen := lays_list ihs (Place.levels_list hp s.branchStatements) 0
    rw [Stmt.lines_branch, Stmt.tour, tour_branchPlace]
    cases o with
    | none =>
      have hall := Lays.cons hif (hthen.append (lays_closing p s))
      simpa [Stmt.elseTour] using hall
    | some t =>
      have hotherwise := fits_otherwise ⟨p, .branch c s (some t) l⟩ s t.opening
      have helse : Entry.Fits ⟨⟨p.levels, s.elseHead ++ t.opening⟩,
          closingRoles p s ++ ⟨.otherwise, p, .branch c s (some t) l⟩ :: openingRoles p t⟩ :=
        ⟨by simp, List.forall_mem_append.2 ⟨fits_closingRoles p s _,
          List.forall_mem_cons.2 ⟨hotherwise, fits_openingRoles p t _⟩⟩⟩
      have hother := lays_list (iho t rfl) (Place.levels_list hp t.branchStatements) 0
      have hall := Lays.cons hif (hthen.append (Lays.cons helse (hother.append (lays_closing p t))))
      simpa [Stmt.elseTour, tour_branchPlace] using hall
  | loop c body k l ih =>
    intro p hp
    exact lays_body (fits_first rfl p " \x7b") ih (Place.levels_list hp body)
  | expression e l =>
    intro p hp
    exact .single (fits_head (s := .expression e l) rfl p)
  | print e l =>
    intro p hp
    exact .single (fits_head (s := .print e l) rfl p)
  | declare x t e l =>
    intro p hp
    cases e with
    | none => exact .single (fits_head (s := .declare x t none l) rfl p)
    | some e => exact .single (fits_head (s := .declare x t (some e) l) rfl p)
  | ret e l =>
    intro p hp
    cases e with
    | none => exact .single (fits_head (s := .ret none l) rfl p)
    | some e => exact .single (fits_head (s := .ret (some e) l) rfl p)

/-! ### The statements of the parts -/

/-- The statements whose first lines are among the parts. -/
def firsts (roles : List Role) : List StmtSite :=
  (roles.filter fun role => role.part = .first).map Role.site

@[simp] theorem firsts_nil : firsts [] = [] := rfl

@[simp] theorem firsts_append (roles others : List Role) :
    firsts (roles ++ others) = firsts roles ++ firsts others := by
  simp [firsts]

@[simp] theorem firsts_first_cons (site : StmtSite) (roles : List Role) :
    firsts (⟨.first, site⟩ :: roles) = site :: firsts roles := rfl

@[simp] theorem firsts_otherwise_cons (site : StmtSite) (roles : List Role) :
    firsts (⟨.otherwise, site⟩ :: roles) = firsts roles := rfl

@[simp] theorem firsts_closing_cons (site : StmtSite) (roles : List Role) :
    firsts (⟨.closing, site⟩ :: roles) = firsts roles := rfl

theorem firsts_listTour {ss : List Stmt} (h : ∀ s ∈ ss, ∀ p, firsts (s.tour p) = s.stmtSites p)
    (p : Place) (statements : List Stmt) (i : Nat) :
    firsts (Stmt.listTour p statements i ss) = Stmt.listStmtSites p statements i ss := by
  induction ss generalizing i with
  | nil => rfl
  | cons s rest ih =>
    rw [Stmt.listTour, Stmt.listStmtSites, firsts_append, h s List.mem_cons_self,
      ih fun t ht => h t (List.mem_cons_of_mem _ ht)]

theorem firsts_branch {s : Stmt}
    (h : ∀ t ∈ s.branchStatements, ∀ p, firsts (t.tour p) = t.stmtSites p) (p : Place) :
    firsts (s.tour (s.branchPlace p)) = branchStmtSites p s := by
  rw [tour_branchPlace, firsts_append, firsts_append, firsts_listTour h, branchStmtSites, scopeStmtSites]
  cases hs : s.isBlock <;> simp [openingRoles, closingRoles, hs]

theorem firsts_tour (s : Stmt) (p : Place) : firsts (s.tour p) = s.stmtSites p := by
  induction s using Stmt.scopeInduct generalizing p with
  | function x t ps body k l ih | block ss l ih | loop c body k l ih =>
    simp [Stmt.tour, Stmt.stmtSites, firsts_listTour ih]
  | expression e l | print e l | declare x t e l | ret e l => rfl
  | branch c s o l ihs iho =>
    cases o with
    | none => simp [Stmt.tour, Stmt.elseTour, stmtSites_branch, firsts_branch ihs]
    | some t =>
      simp [Stmt.tour, Stmt.elseTour, stmtSites_branch, firsts_branch ihs, firsts_branch (iho t rfl)]

/-! ### Empty lines -/

/-- The part of a function at the top level is on the line. -/
def Entry.HasFunction (part : Part) (entry : Entry) : Prop :=
  ∃ role ∈ entry.roles, role.part = part ∧ role.site.node.isFunction ∧ role.site.place.length = 1

/-- A function at the top level ends on the line before or starts on the line after. -/
def BesideFunction (before after : Option Entry) : Prop :=
  (∃ entry ∈ before, entry.HasFunction .closing) ∨ ∃ entry ∈ after, entry.HasFunction .first

/-- Every line, `before` being the one before them all, has its parts or is empty beside a function. -/
def Arranged (before : Option Entry) : List Entry → Prop
  | [] => True
  | entry :: rest =>
    (entry.Fits ∨ entry = ⟨⟨0, ""⟩, []⟩ ∧ BesideFunction before rest.head?) ∧ Arranged (some entry) rest

theorem getLast?_cons_or (entry : Entry) (rest : List Entry) (before : Option Entry) :
    (entry :: rest).getLast?.or before = rest.getLast?.or (some entry) := by
  rw [List.getLast?_cons]
  cases rest.getLast? <;> rfl

theorem arranged_append {entries more : List Entry} (h : ∀ entry ∈ entries, entry.Fits)
    {before : Option Entry} (hmore : Arranged (entries.getLast?.or before) more) :
    Arranged before (entries ++ more) := by
  induction entries generalizing before with
  | nil => exact hmore
  | cons entry rest ih =>
    refine ⟨.inl (h entry List.mem_cons_self), ih (fun e he => h e (List.mem_cons_of_mem _ he)) ?_⟩
    rwa [← getLast?_cons_or entry rest before]

theorem Arranged.split {before : Option Entry} {earlier later : List Entry} {entry : Entry}
    (h : Arranged before (earlier ++ entry :: later)) :
    entry.Fits ∨ entry = ⟨⟨0, ""⟩, []⟩ ∧ BesideFunction (earlier.getLast?.or before) later.head? := by
  induction earlier generalizing before with
  | nil => exact h.1
  | cons e rest ih =>
    rw [getLast?_cons_or]
    exact ih h.2

theorem exists_head {entries : List Entry} {role : Role} {rest : List Role}
    (h : ∀ entry ∈ entries, entry.Fits) (hroles : entries.flatMap Entry.roles = role :: rest) :
    ∃ entry, entries.head? = some entry ∧ role ∈ entry.roles := by
  cases entries with
  | nil => simp at hroles
  | cons entry entries =>
    obtain ⟨r, rs, hr⟩ := List.exists_cons_of_ne_nil (h entry List.mem_cons_self).1
    rw [List.flatMap_cons, hr, List.cons_append, List.cons.injEq] at hroles
    exact ⟨entry, rfl, by rw [hr, hroles.1]; exact List.mem_cons_self⟩

theorem exists_last {entries : List Entry} {role : Role} {rest : List Role}
    (h : ∀ entry ∈ entries, entry.Fits) (hroles : entries.flatMap Entry.roles = rest ++ [role]) :
    ∃ entry, entries.getLast? = some entry ∧ role ∈ entry.roles := by
  rcases List.eq_nil_or_concat entries with rfl | ⟨init, entry, rfl⟩
  · simp at hroles
  · rcases List.eq_nil_or_concat entry.roles with hnil | ⟨rs, r, hr⟩
    · exact absurd hnil (h entry (by simp)).1
    · rw [List.concat_eq_append, List.flatMap_append, List.flatMap_singleton, hr, List.concat_eq_append,
        ← List.append_assoc] at hroles
      have hlast : r = role := List.singleton_inj.1 (List.append_inj' hroles rfl).2
      exact ⟨entry, by simp, by simp [hr, hlast]⟩

/-! ### Programs -/

/-- The first part of a statement is its first line. -/
theorem exists_tour_eq_cons (s : Stmt) (p : Place) : ∃ rest, s.tour p = ⟨.first, p, s⟩ :: rest := by
  cases s <;> exact ⟨_, rfl⟩

/-- The last part of a function is its closing line. -/
theorem exists_tour_eq_concat {s : Stmt} (hs : s.isFunction) (p : Place) :
    ∃ init, s.tour p = init ++ [⟨.closing, p, s⟩] := by
  cases s with
  | function x t ps body k l => exact ⟨_ :: _, rfl⟩
  | _ => simp [Stmt.isFunction] at hs

/-- An empty line comes after a function or before one. -/
theorem separator_cases (afterFunction : Option Bool) (s : Stmt) :
    Program.separator afterFunction s = [] ∨
      Program.separator afterFunction s = [⟨0, ""⟩] ∧ (afterFunction = some true ∨ s.isFunction) := by
  cases afterFunction with
  | none => exact .inl rfl
  | some before =>
    by_cases h : before || s.isFunction
    · refine .inr ⟨by simp [Program.separator, h], ?_⟩
      simpa using h
    · exact .inl (by simp [Program.separator, h])

theorem exists_arranged (u : Program) (rest : List Stmt) (i : Nat) (afterFunction : Option Bool)
    (before : Option Entry)
    (hbefore : afterFunction = some true → ∃ entry ∈ before, entry.HasFunction .closing) :
    ∃ entries : List Entry, entries.map Entry.line = Program.linesAfter afterFunction rest ∧
      entries.flatMap Entry.roles = Stmt.listTour [] u i rest ∧ Arranged before entries := by
  induction rest generalizing i afterFunction before with
  | nil => exact ⟨[], rfl, rfl, trivial⟩
  | cons s rest ih =>
    obtain ⟨own, hlines, hroles, hfits⟩ := laysOut s [.list u i] (List.cons_ne_nil _ _)
    obtain ⟨tail, htour⟩ := exists_tour_eq_cons s [.list u i]
    obtain ⟨entry, hhead, hfirst⟩ := exists_head hfits (hroles.trans htour)
    obtain ⟨last, hlast⟩ : ∃ last, own.getLast? = some last := by
      cases own with
      | nil => simp at hhead
      | cons e es => exact ⟨_, List.getLast?_cons⟩
    have hclosing : some s.isFunction = some true →
        ∃ entry ∈ own.getLast?, entry.HasFunction .closing := by
      intro hs
      obtain ⟨init, hinit⟩ := exists_tour_eq_concat (Option.some.inj hs) [.list u i]
      obtain ⟨entry, hentry, hrole⟩ := exists_last hfits (hroles.trans hinit)
      exact ⟨entry, hentry, _, hrole, rfl, Option.some.inj hs, rfl⟩
    obtain ⟨more, hlines', hroles', harranged⟩ := ih (i + 1) _ _ hclosing
    have hown (before : Option Entry) : Arranged before (own ++ more) := by
      refine arranged_append hfits ?_
      rwa [hlast, Option.some_or, ← hlast]
    -- The empty line before the statement is there because of the function before it or of its own.
    rcases separator_cases afterFunction s with hsep | ⟨hsep, hfunction⟩
    · refine ⟨own ++ more, ?_, ?_, hown before⟩
      · rw [Program.linesAfter, hsep, List.map_append, hlines, hlines']
        rfl
      · rw [List.flatMap_append, hroles, hroles', Stmt.listTour]
    · refine ⟨⟨⟨0, ""⟩, []⟩ :: (own ++ more), ?_, ?_, .inr ⟨rfl, ?_⟩, hown _⟩
      · rw [Program.linesAfter, hsep, List.map_cons, List.map_append, hlines, hlines']
        rfl
      · rw [List.flatMap_cons, List.flatMap_append, hroles, hroles', Stmt.listTour]
        rfl
      · rcases hfunction with hafter | hs
        · exact .inl (hbefore hafter)
        · refine .inr ⟨entry, ?_, _, hfirst, rfl, hs, rfl⟩
          rw [List.head?_append, hhead, Option.some_or]
          rfl

theorem head_ne_empty (s : Stmt) : s.head ≠ "" := by
  have hmark (text : String) : text ++ ";" ≠ "" := by simp
  cases s with
  | declare x t e l => cases e <;> exact hmark _
  | ret e l => cases e <;> simp [Stmt.head]
  | _ => simp [Stmt.head, signature, String.append_assoc]

/-- A line with a part is not empty. -/
theorem Entry.Fits.text_ne_empty {entry : Entry} (h : entry.Fits) : entry.line.text ≠ "" := by
  obtain ⟨role, rest, hroles⟩ := List.exists_cons_of_ne_nil h.1
  obtain ⟨-, hin⟩ := h.2 role (by simp [hroles])
  unfold Role.IsIn at hin
  split at hin
  · split at hin
    · obtain ⟨start, htext⟩ := hin
      simp [htext, head_ne_empty]
    · obtain ⟨rest, htext⟩ := hin
      simp [htext, head_ne_empty]
  · obtain ⟨start, rest, htext⟩ := hin
    simp [htext]
  · obtain ⟨rest, htext⟩ := hin
    simp [htext]

end Printer

namespace Program

/-- The parts of all statements of a program, in source order. -/
def tour (u : Program) : List Role := Stmt.listTour [] u 0 u

/-- The text of a program is a list of lines, the same for every width, of which the width only says how
far they are indented. The parts of the statements, which all have a first line, are spread over the lines,
and a line is as deep as the statements that have a part on it. Lines without parts are empty, are not
indented and stand beside a function at the top level. Only a name or an operator can break a line. -/
theorem print_indents (u : Program) :
    ∃ entries : List Entry,
      (∀ width, u.print width = render width (entries.map Entry.line)) ∧
      entries.flatMap Entry.roles = u.tour ∧
      IsStmtSurvey u (firsts u.tour) ∧
      (∀ entry ∈ entries, ∀ role ∈ entry.roles,
        entry.line.depth = role.site.place.levels ∧ role.IsIn entry.line.text) ∧
      (∀ earlier entry later, entries = earlier ++ entry :: later →
        entry.roles = [] ∨ entry.line.text = "" →
          entry.line = ⟨0, ""⟩ ∧ BesideFunction earlier.getLast? later.head?) ∧
      ((∀ word ∈ u.words, Unbroken word) → ∀ entry ∈ entries, Unbroken entry.line.text) := by
  obtain ⟨entries, hlines, hroles, harranged⟩ := exists_arranged u u 0 none none (by simp)
  refine ⟨entries, ?_, hroles, ?_, ?_, ?_, ?_⟩
  · intro width
    rw [print_eq, lines, hlines]
  · have hfirsts : firsts u.tour = u.stmtSites := firsts_listTour (fun s _ => firsts_tour s) [] u 0
    exact hfirsts ▸ u.isStmtSurvey_stmtSites
  · intro entry hentry role hrole
    obtain ⟨earlier, later, rfl⟩ := List.append_of_mem hentry
    rcases harranged.split with hfits | ⟨rfl, -⟩
    · exact hfits.2 role hrole
    · simp at hrole
  · rintro earlier entry later rfl hempty
    rcases harranged.split with hfits | ⟨rfl, hbeside⟩
    · rcases hempty with hroles | htext
      · exact absurd hroles hfits.1
      · exact absurd htext hfits.text_ne_empty
    · rw [Option.or_none] at hbeside
      exact ⟨rfl, hbeside⟩
  · intro hwords entry hentry
    refine unbroken_lines hwords entry.line ?_
    rw [lines, ← hlines]
    exact List.mem_map_of_mem hentry

/-- An `else` after a branch in braces, and a string literal with a line break. -/
theorem print_indents_literal :
    let u : Program := [.branch (.access "a" 1) (.block [.print (.literal (.string "x\ny") 2) 2] 1)
      (some (.ret none 4)) 1]
    (∀ word ∈ u.words, Unbroken word) ∧
      ∃ entries : List Entry, u.print 4 = render 4 (entries.map Entry.line) ∧
        entries.flatMap Entry.roles = u.tour ∧ ∀ entry ∈ entries, Unbroken entry.line.text := by
  intro u
  have hwords : ∀ word ∈ u.words, Unbroken word := by decide
  obtain ⟨entries, hprint, htour, -, -, -, hunbroken⟩ := print_indents u
  exact ⟨hwords, entries, hprint 4, htour, hunbroken hwords⟩

end Program

end TreeWalk
