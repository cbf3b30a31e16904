import TreeWalk.Proofs.Tree.Records

/-! The forms in which a tree is written. Every node is a record in any of its forms, whatever forms the
nodes in it have, and a type or a null may be written as an object of one member. All forms of a tree are
decoded to that tree, with as much fuel as they nest deep. -/

namespace TreeWalk

/-! ### Forms -/

/-- How a type may be written. -/
inductive Ty.Form (t : Ty) : Json → Prop where
  | name : Form t (.string t.tag)
  | object : Form t (.object [(t.tag, .null)])

/-- How a value may be written. -/
inductive Value.Form : Value → Json → Prop where
  | same (v : Value) : Form v v.toJson
  | nullObject : Form .null (.object [("null", .null)])

def Parameter.Form (p : Parameter) (j : Json) : Prop :=
  ∃ jt, p.type.Form jt ∧
    RecordForm [("name", .string p.name), ("param_type", jt), ("line", p.line.toJson)] j

/-- Nothing is written as null. -/
inductive OrNull {α : Type} (form : α → Json → Prop) : Option α → Json → Prop where
  | none : OrNull form none .null
  | some {a : α} {j : Json} (h : form a j) : OrNull form (some a) j

mutual

/-- How an expression may be written. -/
inductive Expr.Form : Expr → Json → Prop where
  | node {e : Expr} {fields : List (String × Json)} {j : Json} (h : FieldForms e fields)
      (hj : NodeForm e.kind.tag fields j) : Form e j

/-- How the fields of an expression may be written. -/
inductive Expr.FieldForms : Expr → List (String × Json) → Prop where
  | literal {v : Value} {jv : Json} (l : Line) (hv : v.Form jv) :
      FieldForms (.literal v l) [("value", jv), ("line", l.toJson)]
  | grouping {e : Expr} {je : Json} (l : Line) (he : Form e je) :
      FieldForms (.grouping e l) [("expression", je), ("line", l.toJson)]
  | unary {e : Expr} {je : Json} (op : String) (l : Line) (he : Form e je) :
      FieldForms (.unary op e l) [("operator", .string op), ("operand", je), ("line", l.toJson)]
  | binary {a b : Expr} {ja jb : Json} (op : String) (l : Line) (ha : Form a ja) (hb : Form b jb) :
      FieldForms (.binary a op b l)
        [("left", ja), ("operator", .string op), ("right", jb), ("line", l.toJson)]
  | logical {a b : Expr} {ja jb : Json} (op : String) (l : Line) (ha : Form a ja) (hb : Form b jb) :
      FieldForms (.logical a op b l)
        [("left", ja), ("operator", .string op), ("right", jb), ("line", l.toJson)]
  | access (x : String) (l : Line) : FieldForms (.access x l) [("name", .string x), ("line", l.toJson)]
  | assign {e : Expr} {je : Json} (x : String) (l : Line) (he : Form e je) :
      FieldForms (.assign x e l) [("name", .string x), ("value", je), ("line", l.toJson)]
  | call {es : List Expr} {js : List Json} (f : String) (l : Line) (hs : List.Forall₂ Form es js) :
      FieldForms (.call f es l) [("callee", .string f), ("arguments", .array js), ("line", l.toJson)]

end

/-- How a body may be written, given its statements. -/
def BodyForm (js : List Json) (l : Line) : Json → Prop :=
  RecordForm [("statements", .array js), ("line", l.toJson)]

mutual

/-- How a statement may be written. -/
inductive Stmt.Form : Stmt → Json → Prop where
  | node {s : Stmt} {fields : List (String × Json)} {j : Json} (h : FieldForms s fields)
      (hj : NodeForm s.kind.tag fields j) : Form s j

/-- How the fields of a statement may be written. -/
inductive Stmt.FieldForms : Stmt → List (String × Json) → Prop where
  | function {t : Ty} {ps : List Parameter} {body : List Stmt} {jt jb : Json} {jps js : List Json}
      (x : String) (k l : Line) (ht : t.Form jt) (hps : List.Forall₂ Parameter.Form ps jps)
      (hs : List.Forall₂ Form body js) (hb : BodyForm js k jb) :
      FieldForms (.function x t ps body k l) [("name", .string x), ("return_type", jt),
        ("parameters", .array jps), ("body", jb), ("line", l.toJson)]
  | block {ss : List Stmt} {js : List Json} (l : Line) (hs : List.Forall₂ Form ss js) :
      FieldForms (.block ss l) [("statements", .array js), ("line", l.toJson)]
  | expression {e : Expr} {je : Json} (l : Line) (he : e.Form je) :
      FieldForms (.expression e l) [("expression", je), ("line", l.toJson)]
  | branch {c : Expr} {s : Stmt} {o : Option Stmt} {jc js jo : Json} (l : Line) (hc : c.Form jc)
      (hs : Form s js) (ho : OrNull Form o jo) :
      FieldForms (.branch c s o l) [("condition", jc), ("then_branch", js), ("else_branch", jo),
        ("line", l.toJson)]
  | print {e : Expr} {je : Json} (l : Line) (he : e.Form je) :
      FieldForms (.print e l) [("expression", je), ("line", l.toJson)]
  | declare {t : Ty} {e : Option Expr} {jt je : Json} (x : String) (l : Line) (ht : t.Form jt)
      (he : OrNull Expr.Form e je) :
      FieldForms (.declare x t e l) [("name", .string x), ("var_type", jt), ("initializer", je),
        ("line", l.toJson)]
  | loop {c : Expr} {body : List Stmt} {jc jb : Json} {js : List Json} (k l : Line) (hc : c.Form jc)
      (hs : List.Forall₂ Form body js) (hb : BodyForm js k jb) :
      FieldForms (.loop c body k l) [("condition", jc), ("body", jb), ("line", l.toJson)]
  | ret {e : Option Expr} {je : Json} (l : Line) (he : OrNull Expr.Form e je) :
      FieldForms (.ret e l) [("value", je), ("line", l.toJson)]

end

/-! ### Decoding values -/

theorem readLine_toJson (l : Line) : readLine l.toJson = .ok l := by
  have hlt : (l.toNat : Int) < UInt32.size := Int.ofNat_lt.2 l.toNat_lt_size
  rw [Line.toJson, readLine, if_pos ⟨Int.natCast_nonneg _, hlt⟩, Int.toNat_natCast]
  simp

theorem readString_string (s : String) : readString (.string s) = .ok s := rfl

theorem Ty.Form.read {t : Ty} {j : Json} (h : t.Form j) : readTy j = .ok t := by
  cases h <;> cases t <;> rfl

theorem Value.Form.read {v : Value} {j : Json} (h : v.Form j) : readValue j = .ok v := by
  cases h with
  | same v =>
    cases v with
    | integer n =>
      have hmin : Int64.minValue.toInt ≤ n.toInt := by simpa using n.le_toInt
      have hmax : n.toInt ≤ Int64.maxValue.toInt := by
        have hlt := n.toInt_lt
        have hvalue : Int64.maxValue.toInt = 2 ^ 63 - 1 := by decide
        omega
      have hread : readInteger (.integer n.toInt) = .ok n := by
        rw [readInteger, if_pos ⟨hmin, hmax⟩, Int64.ofInt_toInt]
      exact congrArg (Value.integer <$> ·) hread
    | double x => rfl
    | boolean b => rfl
    | string s => rfl
    | null => rfl
  | nullObject => rfl

/-- A sequence is read if its items are. -/
theorem readSequence_eq {α : Type} {form : α → Json → Prop} {as : List α} {js : List Json}
    (h : List.Forall₂ form as js) {d : Nat} (hd : (Json.array js).depth ≤ d)
    {read : Json → Except Mismatch α} (hread : ∀ {a j}, form a j → j.depth ≤ d → read j = .ok a) :
    readSequence read (.array js) = .ok as := by
  have hdepth : ∀ j ∈ js, j.depth ≤ d := by
    rw [Json.depth] at hd
    exact Json.itemsDepth_le_iff.1 (by omega)
  have hitems : js.mapM read = .ok as := by
    clear hd
    induction h with
    | nil => rfl
    | cons h _ ih =>
      rw [List.forall_mem_cons] at hdepth
      rw [List.mapM_cons, hread h hdepth.1, ih hdepth.2]
      rfl
  exact hitems

theorem orNull_eq {α : Type} {form : α → Json → Prop} {read : Json → Except Mismatch α}
    (hnull : ∃ m, read .null = .error m) {o : Option α} {j : Json} (h : OrNull form o j)
    (hread : ∀ a ∈ o, form a j → read j = .ok a) : orNull read j = .ok o := by
  cases h with
  | none => rfl
  | some h =>
    have hsome := hread _ rfl h
    cases j with
    | null =>
      obtain ⟨m, hm⟩ := hnull
      rw [hm] at hsome
      cases hsome
    | _ => simp only [orNull, hsome, Except.map]

theorem Parameter.Form.read {p : Parameter} {j : Json} (h : p.Form j) : readParameter j = .ok p := by
  obtain ⟨jt, ht, h⟩ := h
  obtain ⟨parts, hparts, hform⟩ := Schema.parts_eq h Parameter.schema
  have hp : Parameter.schema.Holds _ parts := ⟨rfl, by decide, hform⟩
  have hname := hp.field "name" (by simp) ⟨_, rfl⟩ (readString_string p.name)
  have htype := hp.field "param_type" (by simp) ⟨_, rfl⟩ ht.read
  have hline := hp.field "line" (by simp) ⟨_, rfl⟩ (readLine_toJson p.line)
  simp only [readParameter, hparts, bind, Except.bind, hname, htype, hline, Reading.map_done,
    Reading.seq_done, hp.finish]

/-! ### Decoding expressions -/

theorem Expr.FieldForms.names {e : Expr} {fields : List (String × Json)} (h : e.FieldForms fields) :
    e.kind.schema.fields = fields.map (·.1) := by
  cases h <;> rfl

theorem ExprKind.nodup_fields (k : ExprKind) : (tagKey :: k.schema.fields).Nodup := by
  cases k <;> decide

theorem Expr.ofTag_tag (k : ExprKind) : Expr.family.ofTag k.tag = .ok k := by cases k <;> rfl

/-- An expression is decoded if the expressions in it are. -/
theorem exprOfParts_eq {child : Json → Except Mismatch Expr} (hnull : ∃ m, child .null = .error m) {d : Nat}
    (hchild : ∀ {e j}, Expr.Form e j → j.depth ≤ d → child j = .ok e) {e : Expr}
    {fields : List (String × Json)} (h : e.FieldForms fields) (hd : ∀ f ∈ fields, f.2.depth ≤ d)
    {parts : Parts} (hp : e.kind.schema.Holds fields parts) : exprOfParts child e.kind parts = .ok e := by
  cases h with
  | literal l hv =>
    simp only [Expr.kind] at hp ⊢
    have hvalue := hp.field "value" (by simp) ⟨_, rfl⟩ hv.read
    have hline := hp.field "line" (by simp) ⟨_, rfl⟩ (readLine_toJson l)
    simp only [exprOfParts, hvalue, hline, Reading.map_done, Reading.seq_done, hp.finish]
  | grouping l he =>
    simp only [Expr.kind, List.forall_mem_cons] at hp hd ⊢
    have hinner := hp.field "expression" (by simp) hnull (hchild he hd.1)
    have hline := hp.field "line" (by simp) ⟨_, rfl⟩ (readLine_toJson l)
    simp only [exprOfParts, hinner, hline, Reading.map_done, Reading.seq_done, hp.finish]
  | unary op l he =>
    simp only [Expr.kind, List.forall_mem_cons] at hp hd ⊢
    have hop := hp.field "operator" (by simp) ⟨_, rfl⟩ (readString_string op)
    have hoperand := hp.field "operand" (by simp) hnull (hchild he hd.2.1)
    have hline := hp.field "line" (by simp) ⟨_, rfl⟩ (readLine_toJson l)
    simp only [exprOfParts, hop, hoperand, hline, Reading.map_done, Reading.seq_done, hp.finish]
  | binary op l ha hb | logical op l ha hb =>
    simp only [Expr.kind, List.forall_mem_cons] at hp hd ⊢
    have hleft := hp.field "left" (by simp) hnull (hchild ha hd.1)
    have hop := hp.field "operator" (by simp) ⟨_, rfl⟩ (readString_string op)
    have hright := hp.field "right" (by simp) hnull (hchild hb hd.2.2.1)
    have hline := hp.field "line" (by simp) ⟨_, rfl⟩ (readLine_toJson l)
    simp only [exprOfParts, hleft, hop, hright, hline, Reading.map_done, Reading.seq_done, hp.finish]
  | access x l =>
    simp only [Expr.kind] at hp ⊢
    have hname := hp.field "name" (by simp) ⟨_, rfl⟩ (readString_string x)
    have hline := hp.field "line" (by simp) ⟨_, rfl⟩ (readLine_toJson l)
    simp only [exprOfParts, hname, hline, Reading.map_done, Reading.seq_done, hp.finish]
  | assign x l he =>
    simp only [Expr.kind, List.forall_mem_cons] at hp hd ⊢
    have hname := hp.field "name" (by simp) ⟨_, rfl⟩ (readString_string x)
    have hvalue := hp.field "value" (by simp) hnull (hchild he hd.2.1)
    have hline := hp.field "line" (by simp) ⟨_, rfl⟩ (readLine_toJson l)
    simp only [exprOfParts, hname, hvalue, hline, Reading.map_done, Reading.seq_done, hp.finish]
  | call f l hs =>
    simp only [Expr.kind, List.forall_mem_cons] at hp hd ⊢
    have hcallee := hp.field "callee" (by simp) ⟨_, rfl⟩ (readString_string f)
    have hargs := hp.field "arguments" (by simp) ⟨_, rfl⟩ (readSequence_eq hs hd.2.1 hchild)
    have hline := hp.field "line" (by simp) ⟨_, rfl⟩ (readLine_toJson l)
    simp only [exprOfParts, hcallee, hargs, hline, Reading.map_done, Reading.seq_done, hp.finish]

theorem readExpr_null (fuel : Nat) : ∃ m, readExpr fuel .null = .error m := by
  cases fuel <;> exact ⟨_, rfl⟩

/-- The tag of an expression is split off, and the fields are left in one of their forms. -/
theorem Expr.FieldForms.splits {e : Expr} {fields : List (String × Json)} (h : e.FieldForms fields) {j : Json}
    (hj : NodeForm e.kind.tag fields j) :
    ∃ parts, Expr.family.Splits e.kind j parts ∧ e.kind.schema.Holds fields parts := by
  have hnodup := e.kind.nodup_fields
  rw [h.names] at hnodup
  obtain ⟨parts, hsplit, hform⟩ := hj.splits (Expr.ofTag_tag e.kind) hnodup
  exact ⟨parts, hsplit, h.names, h.names ▸ (List.nodup_cons.1 hnodup).2, hform⟩

theorem NodeForm.depth_le {tag : String} {fields : List (String × Json)} {j : Json} (h : NodeForm tag fields j)
    {d : Nat} (hd : j.depth ≤ d + 1) : ∀ f ∈ fields, f.2.depth ≤ d := by
  intro f hf
  have hlt := RecordForm.depth_lt h f (List.mem_cons_of_mem _ hf)
  omega

/-- All forms of an expression are decoded to it. -/
theorem Expr.Form.read {e : Expr} {j : Json} (h : e.Form j) {fuel : Nat} (hf : j.depth ≤ fuel) :
    readExpr fuel j = .ok e := by
  induction fuel generalizing e j with
  | zero =>
    obtain ⟨-, hj⟩ := h
    have hpos := RecordForm.depth_lt hj _ List.mem_cons_self
    omega
  | succ fuel ih =>
    obtain ⟨h, hj⟩ := h
    obtain ⟨parts, hsplit, hp⟩ := h.splits hj
    rw [readExpr, hsplit.split]
    exact exprOfParts_eq (readExpr_null fuel) ih h (hj.depth_le hf) hp

/-! ### Decoding statements -/

theorem Stmt.FieldForms.names {s : Stmt} {fields : List (String × Json)} (h : s.FieldForms fields) :
    s.kind.schema.fields = fields.map (·.1) := by
  cases h <;> rfl

theorem StmtKind.nodup_fields (k : StmtKind) : (tagKey :: k.schema.fields).Nodup := by
  cases k <;> decide

theorem Stmt.ofTag_tag (k : StmtKind) : Stmt.family.ofTag k.tag = .ok k := by cases k <;> rfl

theorem readBody_eq {child : Json → Except Mismatch Stmt} {d : Nat}
    (hchild : ∀ {s j}, Stmt.Form s j → j.depth ≤ d → child j = .ok s) {ss : List Stmt} {js : List Json}
    (hs : List.Forall₂ Stmt.Form ss js) {l : Line} {j : Json} (h : BodyForm js l j) (hd : j.depth ≤ d) :
    readBody child j = .ok (ss, l) := by
  obtain ⟨parts, hparts, hform⟩ := Schema.parts_eq h StmtKind.block.schema
  have hp : StmtKind.block.schema.Holds _ parts := ⟨rfl, by decide, hform⟩
  have hdepth : (Json.array js).depth < j.depth := RecordForm.depth_lt h _ List.mem_cons_self
  have hstmts := hp.field "statements" (by simp) ⟨_, rfl⟩ (readSequence_eq hs (by omega) hchild)
  have hline := hp.field "line" (by simp) ⟨_, rfl⟩ (readLine_toJson l)
  simp only [readBody, hparts, bind, Except.bind, hstmts, hline, Reading.map_done, Reading.seq_done, hp.finish]

/-- A statement is decoded if the expressions and statements in it are. -/
theorem stmtOfParts_eq {expr : Json → Except Mismatch Expr} {child : Json → Except Mismatch Stmt}
    (henull : ∃ m, expr .null = .error m) (hnull : ∃ m, child .null = .error m) {d : Nat}
    (hexpr : ∀ {e j}, Expr.Form e j → j.depth ≤ d → expr j = .ok e)
    (hchild : ∀ {s j}, Stmt.Form s j → j.depth ≤ d → child j = .ok s) {s : Stmt}
    {fields : List (String × Json)} (h : s.FieldForms fields) (hd : ∀ f ∈ fields, f.2.depth ≤ d)
    {parts : Parts} (hp : s.kind.schema.Holds fields parts) : stmtOfParts expr child s.kind parts = .ok s := by
  cases h with
  | function x k l ht hps hs hb =>
    simp only [Stmt.kind, List.forall_mem_cons] at hp hd ⊢
    have hname := hp.field "name" (by simp) ⟨_, rfl⟩ (readString_string x)
    have htype := hp.field "return_type" (by simp) ⟨_, rfl⟩ ht.read
    have hparameters := hp.field "parameters" (by simp) ⟨_, rfl⟩
      (readSequence_eq hps hd.2.2.1 fun h _ => h.read)
    have hbody := hp.field "body" (by simp) ⟨_, rfl⟩ (readBody_eq hchild hs hb hd.2.2.2.1)
    have hline := hp.field "line" (by simp) ⟨_, rfl⟩ (readLine_toJson l)
    simp only [stmtOfParts, hname, htype, hparameters, hbody, hline, Reading.map_done, Reading.seq_done,
      hp.finish]
  | block l hs =>
    simp only [Stmt.kind, List.forall_mem_cons] at hp hd ⊢
    have hstmts := hp.field "statements" (by simp) ⟨_, rfl⟩ (readSequence_eq hs hd.1 hchild)
    have hline := hp.field "line" (by simp) ⟨_, rfl⟩ (readLine_toJson l)
    simp only [stmtOfParts, hstmts, hline, Reading.map_done, Reading.seq_done, hp.finish]
  | expression l he | print l he =>
    simp only [Stmt.kind, List.forall_mem_cons] at hp hd ⊢
    have hinner := hp.field "expression" (by simp) henull (hexpr he hd.1)
    have hline := hp.field "line" (by simp) ⟨_, rfl⟩ (readLine_toJson l)
    simp only [stmtOfParts, hinner, hline, Reading.map_done, Reading.seq_done, hp.finish]
  | branch l hc hs ho =>
    simp only [Stmt.kind, List.forall_mem_cons] at hp hd ⊢
    have hcondition := hp.field "condition" (by simp) henull (hexpr hc hd.1)
    have hthen := hp.field "then_branch" (by simp) hnull (hchild hs hd.2.1)
    have helse := hp.optional "else_branch" (by simp) (orNull_eq hnull ho fun _ _ h => hchild h hd.2.2.1)
    have hline := hp.field "line" (by simp) ⟨_, rfl⟩ (readLine_toJson l)
    simp only [stmtOfParts, hcondition, hthen, helse, hline, Reading.map_done, Reading.seq_done, hp.finish]
  | declare x l ht he =>
    simp only [Stmt.kind, List.forall_mem_cons] at hp hd ⊢
    have hname := hp.field "name" (by simp) ⟨_, rfl⟩ (readString_string x)
    have htype := hp.field "var_type" (by simp) ⟨_, rfl⟩ ht.read
    have hinitial := hp.optional "initializer" (by simp) (orNull_eq henull he fun _ _ h => hexpr h hd.2.2.1)
    have hline := hp.field "line" (by simp) ⟨_, rfl⟩ (readLine_toJson l)
    simp only [stmtOfParts, hname, htype, hinitial, hline, Reading.map_done, Reading.seq_done, hp.finish]
  | loop k l hc hs hb =>
    simp only [Stmt.kind, List.forall_mem_cons] at hp hd ⊢
    have hcondition := hp.field "condition" (by simp) henull (hexpr hc hd.1)
    have hbody := hp.field "body" (by simp) ⟨_, rfl⟩ (readBody_eq hchild hs hb hd.2.1)
    have hline := hp.field "line" (by simp) ⟨_, rfl⟩ (readLine_toJson l)
    simp only [stmtOfParts, hcondition, hbody, hline, Reading.map_done, Reading.seq_done, hp.finish]
  | ret l he =>
    simp only [Stmt.kind, List.forall_mem_cons] at hp hd ⊢
    have hvalue := hp.optional "value" (by simp) (orNull_eq henull he fun _ _ h => hexpr h hd.1)
    have hline := hp.field "line" (by simp) ⟨_, rfl⟩ (readLine_toJson l)
    simp only [stmtOfParts, hvalue, hline, Reading.map_done, Reading.seq_done, hp.finish]

theorem readStmt_null (fuel : Nat) : ∃ m, readStmt fuel .null = .error m := by
  cases fuel <;> exact ⟨_, rfl⟩

/-- The tag of a statement is split off, and the fields are left in one of their forms. -/
theorem Stmt.FieldForms.splits {s : Stmt} {fields : List (String × Json)} (h : s.FieldForms fields) {j : Json}
    (hj : NodeForm s.kind.tag fields j) :
    ∃ parts, Stmt.family.Splits s.kind j parts ∧ s.kind.schema.Holds fields parts := by
  have hnodup := s.kind.nodup_fields
  rw [h.names] at hnodup
  obtain ⟨parts, hsplit, hform⟩ := hj.splits (Stmt.ofTag_tag s.kind) hnodup
  exact ⟨parts, hsplit, h.names, h.names ▸ (List.nodup_cons.1 hnodup).2, hform⟩

/-- All forms of a statement are decoded to it. -/
theorem Stmt.Form.read {s : Stmt} {j : Json} (h : s.Form j) {fuel : Nat} (hf : j.depth ≤ fuel) :
    readStmt fuel j = .ok s := by
  induction fuel generalizing s j with
  | zero =>
    obtain ⟨-, hj⟩ := h
    have hpos := RecordForm.depth_lt hj _ List.mem_cons_self
    omega
  | succ fuel ih =>
    obtain ⟨h, hj⟩ := h
    obtain ⟨parts, hsplit, hp⟩ := h.splits hj
    rw [readStmt, hsplit.split]
    exact stmtOfParts_eq (readExpr_null fuel) (readStmt_null fuel) (fun he hd => he.read hd) ih h
      (hj.depth_le hf) hp

end TreeWalk
