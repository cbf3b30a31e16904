import Mathlib.Data.List.Forall2
import TreeWalk.Proofs.Json.RoundTrip
import TreeWalk.Proofs.Tree.Form
import TreeWalk.Proofs.Tree.Induction

/-! The JSON values that trees are written as. A node is written as an object of its tag and its fields,
which is one of the forms of the node. Trees without doubles are written as plain values. -/

namespace TreeWalk

/-! ### Trees without doubles -/

mutual

/-- No literal in the expression is a double. -/
def Expr.isDoubleFree : Expr → Bool
  | .literal v _ => v.type != .double
  | .grouping e _ | .unary _ e _ | .assign _ e _ => e.isDoubleFree
  | .binary a _ b _ | .logical a _ b _ => a.isDoubleFree && b.isDoubleFree
  | .access _ _ => true
  | .call _ es _ => Expr.areDoubleFree es

def Expr.areDoubleFree : List Expr → Bool
  | [] => true
  | e :: es => e.isDoubleFree && Expr.areDoubleFree es

end

theorem Expr.areDoubleFree_iff (es : List Expr) : Expr.areDoubleFree es ↔ ∀ e ∈ es, e.isDoubleFree := by
  induction es with
  | nil => simp [areDoubleFree]
  | cons e es ih => simp [areDoubleFree, ih]

/-- No literal in the program is a double. -/
def Program.isDoubleFree (u : Program) : Bool := (Stmt.listRootExprs u).all Expr.isDoubleFree

theorem Stmt.mem_listRootExprs {e : Expr} {ss : List Stmt} :
    e ∈ Stmt.listRootExprs ss ↔ ∃ s ∈ ss, e ∈ s.rootExprs := by
  induction ss with
  | nil => simp [listRootExprs]
  | cons s ss ih => simp [listRootExprs, ih]

/-! ### Fields of nodes -/

def Expr.fields : Expr → List (String × Json)
  | .literal v l => [("value", v.toJson), ("line", l.toJson)]
  | .grouping e l => [("expression", e.toJson), ("line", l.toJson)]
  | .unary op e l => [("operator", .string op), ("operand", e.toJson), ("line", l.toJson)]
  | .binary a op b l | .logical a op b l =>
    [("left", a.toJson), ("operator", .string op), ("right", b.toJson), ("line", l.toJson)]
  | .access x l => [("name", .string x), ("line", l.toJson)]
  | .assign x e l => [("name", .string x), ("value", e.toJson), ("line", l.toJson)]
  | .call f es l =>
    [("callee", .string f), ("arguments", .array (Expr.listToJson es)), ("line", l.toJson)]

def bodyJson (ss : List Stmt) (l : Line) : Json :=
  .object [("statements", .array (Stmt.listToJson ss)), ("line", l.toJson)]

def Stmt.fields : Stmt → List (String × Json)
  | .function x t ps body k l =>
    [("name", .string x), ("return_type", t.toJson), ("parameters", .array (ps.map Parameter.toJson)),
      ("body", bodyJson body k), ("line", l.toJson)]
  | .block ss l => [("statements", .array (Stmt.listToJson ss)), ("line", l.toJson)]
  | .expression e l | .print e l => [("expression", e.toJson), ("line", l.toJson)]
  | .branch c s o l =>
    [("condition", c.toJson), ("then_branch", s.toJson), ("else_branch", Stmt.optionToJson o),
      ("line", l.toJson)]
  | .declare x t e l =>
    [("name", .string x), ("var_type", t.toJson), ("initializer", Expr.optionToJson e), ("line", l.toJson)]
  | .loop c body k l => [("condition", c.toJson), ("body", bodyJson body k), ("line", l.toJson)]
  | .ret e l => [("value", Expr.optionToJson e), ("line", l.toJson)]

theorem Expr.toJson_eq (e : Expr) : e.toJson = nodeJson e.kind.tag e.fields := by cases e <;> rfl

theorem Stmt.toJson_eq (s : Stmt) : s.toJson = nodeJson s.kind.tag s.fields := by cases s <;> rfl

theorem Expr.listToJson_eq (es : List Expr) : Expr.listToJson es = es.map Expr.toJson := by
  induction es with
  | nil => rfl
  | cons e es ih => rw [listToJson, ih, List.map_cons]

theorem Stmt.listToJson_eq (ss : List Stmt) : Stmt.listToJson ss = ss.map Stmt.toJson := by
  induction ss with
  | nil => rfl
  | cons s ss ih => rw [listToJson, ih, List.map_cons]

/-! ### The form that is written -/

theorem Expr.form_of_fieldForms {e : Expr} (h : e.FieldForms e.fields) : e.Form e.toJson := by
  rw [e.toJson_eq]
  exact .node h (nodeForm_nodeJson _ _)

theorem Expr.fieldForms_fields (e : Expr) : e.FieldForms e.fields := by
  induction e using Expr.induct with
  | literal v l => exact .literal l (.same v)
  | grouping e l ih => exact .grouping l (form_of_fieldForms ih)
  | unary op e l ih => exact .unary op l (form_of_fieldForms ih)
  | binary a op b l iha ihb => exact .binary op l (form_of_fieldForms iha) (form_of_fieldForms ihb)
  | logical a op b l iha ihb => exact .logical op l (form_of_fieldForms iha) (form_of_fieldForms ihb)
  | access x l => exact .access x l
  | assign x e l ih => exact .assign x l (form_of_fieldForms ih)
  | call f es l ih =>
    refine .call f l ?_
    rw [listToJson_eq, List.forall₂_map_right_iff, List.forall₂_same]
    exact fun e he => form_of_fieldForms (ih e he)

/-- An expression is written in one of its forms. -/
theorem Expr.form_toJson (e : Expr) : e.Form e.toJson := form_of_fieldForms e.fieldForms_fields

theorem Expr.form_optionToJson (o : Option Expr) : OrNull Expr.Form o (Expr.optionToJson o) := by
  cases o with
  | none => exact .none
  | some e => exact .some e.form_toJson

theorem Parameter.form_toJson (p : Parameter) : p.Form p.toJson := ⟨_, .name, .object (membersOf_self _)⟩

theorem bodyForm_bodyJson (ss : List Stmt) (l : Line) : BodyForm (Stmt.listToJson ss) l (bodyJson ss l) :=
  .object (membersOf_self _)

theorem Stmt.form_of_fieldForms {s : Stmt} (h : s.FieldForms s.fields) : s.Form s.toJson := by
  rw [s.toJson_eq]
  exact .node h (nodeForm_nodeJson _ _)

theorem Stmt.fieldForms_fields (s : Stmt) : s.FieldForms s.fields := by
  have hlist {ss : List Stmt} (h : ∀ s ∈ ss, s.FieldForms s.fields) :
      List.Forall₂ Stmt.Form ss (Stmt.listToJson ss) := by
    rw [listToJson_eq, List.forall₂_map_right_iff, List.forall₂_same]
    exact fun s hs => form_of_fieldForms (h s hs)
  induction s using Stmt.induct with
  | function x t ps body k l ih =>
    refine .function x k l .name ?_ (hlist ih) (bodyForm_bodyJson body k)
    rw [List.forall₂_map_right_iff, List.forall₂_same]
    exact fun p _ => p.form_toJson
  | block ss l ih => exact .block l (hlist ih)
  | expression e l => exact .expression l e.form_toJson
  | branch c s o l ihs iho =>
    refine .branch l c.form_toJson (form_of_fieldForms ihs) ?_
    cases o with
    | none => exact .none
    | some t => exact .some (form_of_fieldForms (iho t rfl))
  | print e l => exact .print l e.form_toJson
  | declare x t e l => exact .declare x l .name (Expr.form_optionToJson e)
  | loop c body k l ih => exact .loop k l c.form_toJson (hlist ih) (bodyForm_bodyJson body k)
  | ret e l => exact .ret l (Expr.form_optionToJson e)

/-- Statements are written in one of their forms each. -/
theorem Stmt.forms_listToJson (ss : List Stmt) : List.Forall₂ Stmt.Form ss (Stmt.listToJson ss) := by
  rw [listToJson_eq, List.forall₂_map_right_iff, List.forall₂_same]
  exact fun s _ => form_of_fieldForms s.fieldForms_fields

/-! ### Plain values -/

open Json (IsPlain)

theorem isPlain_line (l : Line) : IsPlain l.toJson := by
  refine .integer ⟨?_, ?_⟩
  · have hmin : Int64.minValue.toInt ≤ 0 := by decide
    omega
  · have hlt : l.toNat < 2 ^ 32 := l.toNat_lt
    simp only [UInt64.size]
    omega

theorem isPlain_value {v : Value} (h : v.type ≠ .double) : IsPlain v.toJson := by
  cases v with
  | integer n =>
    have hlow := n.le_toInt
    have hhigh := n.toInt_lt
    refine .object (List.forall_mem_singleton.2 (.integer ⟨by simpa using hlow, ?_⟩))
    simp only [UInt64.size]
    omega
  | double x => exact absurd rfl h
  | boolean b => exact .object (List.forall_mem_singleton.2 (.bool b))
  | string s => exact .object (List.forall_mem_singleton.2 (.string s))
  | null => exact .string _

theorem isPlain_type (t : Ty) : IsPlain t.toJson := .string _

theorem isPlain_nodeJson {tag : String} {fields : List (String × Json)}
    (h : ∀ f ∈ fields, IsPlain f.2) : IsPlain (nodeJson tag fields) :=
  .object (List.forall_mem_cons.2 ⟨.string tag, h⟩)

theorem isPlain_parameter (p : Parameter) : IsPlain p.toJson := by
  refine .object ?_
  simp only [List.forall_mem_cons]
  exact ⟨.string _, isPlain_type _, isPlain_line _, nofun⟩

theorem Expr.isPlain_fields (e : Expr) (h : e.isDoubleFree) : ∀ f ∈ e.fields, IsPlain f.2 := by
  have hnode {e : Expr} (he : ∀ f ∈ e.fields, IsPlain f.2) : IsPlain e.toJson := by
    rw [e.toJson_eq]
    exact isPlain_nodeJson he
  induction e using Expr.induct with
  | literal v l =>
    simp only [isDoubleFree, bne_iff_ne] at h
    simp only [fields, List.forall_mem_cons]
    exact ⟨isPlain_value h, isPlain_line l, nofun⟩
  | grouping e l ih =>
    simp only [fields, List.forall_mem_cons]
    exact ⟨hnode (ih h), isPlain_line l, nofun⟩
  | unary op e l ih =>
    simp only [fields, List.forall_mem_cons]
    exact ⟨.string op, hnode (ih h), isPlain_line l, nofun⟩
  | binary a op b l iha ihb | logical a op b l iha ihb =>
    simp only [isDoubleFree, Bool.and_eq_true] at h
    simp only [fields, List.forall_mem_cons]
    exact ⟨hnode (iha h.1), .string op, hnode (ihb h.2), isPlain_line l, nofun⟩
  | access x l =>
    simp only [fields, List.forall_mem_cons]
    exact ⟨.string x, isPlain_line l, nofun⟩
  | assign x e l ih =>
    simp only [fields, List.forall_mem_cons]
    exact ⟨.string x, hnode (ih h), isPlain_line l, nofun⟩
  | call f es l ih =>
    rw [isDoubleFree, areDoubleFree_iff] at h
    have hargs : ∀ j ∈ Expr.listToJson es, IsPlain j := by
      intro j hj
      rw [listToJson_eq] at hj
      obtain ⟨e, he, rfl⟩ := List.mem_map.1 hj
      exact hnode (ih e he (h e he))
    simp only [fields, List.forall_mem_cons]
    exact ⟨.string f, .array hargs, isPlain_line l, nofun⟩

theorem Expr.isPlain_toJson {e : Expr} (h : e.isDoubleFree) : IsPlain e.toJson := by
  rw [e.toJson_eq]
  exact isPlain_nodeJson (e.isPlain_fields h)

theorem Expr.isPlain_optionToJson {o : Option Expr} (h : ∀ e ∈ o, e.isDoubleFree) :
    IsPlain (Expr.optionToJson o) := by
  cases o with
  | none => exact .null
  | some e => exact isPlain_toJson (h e rfl)

theorem Stmt.isPlain_fields (s : Stmt) (h : ∀ e ∈ s.rootExprs, e.isDoubleFree) :
    ∀ f ∈ s.fields, IsPlain f.2 := by
  have hnode {s : Stmt} (hs : ∀ f ∈ s.fields, IsPlain f.2) : IsPlain s.toJson := by
    rw [s.toJson_eq]
    exact isPlain_nodeJson hs
  -- What holds of every statement of a list holds of the array that they are written as.
  have hlist {ss : List Stmt} (hss : ∀ e ∈ listRootExprs ss, e.isDoubleFree)
      (ih : ∀ s ∈ ss, (∀ e ∈ s.rootExprs, e.isDoubleFree) → ∀ f ∈ s.fields, IsPlain f.2) :
      IsPlain (.array (Stmt.listToJson ss)) := by
    refine .array fun j hj => ?_
    rw [listToJson_eq] at hj
    obtain ⟨s, hs, rfl⟩ := List.mem_map.1 hj
    exact hnode (ih s hs fun e he => hss e (mem_listRootExprs.2 ⟨s, hs, he⟩))
  have hbody {ss : List Stmt} {l : Line} (hss : IsPlain (.array (Stmt.listToJson ss))) :
      IsPlain (bodyJson ss l) := by
    refine .object ?_
    simp only [List.forall_mem_cons]
    exact ⟨hss, isPlain_line l, nofun⟩
  induction s using Stmt.induct with
  | function x t ps body k l ih =>
    have hps : ∀ j ∈ ps.map Parameter.toJson, IsPlain j := by
      simp only [List.mem_map, forall_exists_index, and_imp, forall_apply_eq_imp_iff₂]
      exact fun p _ => isPlain_parameter p
    simp only [fields, List.forall_mem_cons]
    exact ⟨.string x, isPlain_type t, .array hps, hbody (hlist h ih), isPlain_line l, nofun⟩
  | block ss l ih =>
    simp only [fields, List.forall_mem_cons]
    exact ⟨hlist h ih, isPlain_line l, nofun⟩
  | expression e l | print e l =>
    simp only [fields, List.forall_mem_cons]
    exact ⟨Expr.isPlain_toJson (h e (by simp [rootExprs])), isPlain_line l, nofun⟩
  | branch c s o l ihs iho =>
    simp only [rootExprs, List.forall_mem_cons, List.forall_mem_append] at h
    have ho : IsPlain (Stmt.optionToJson o) := by
      cases o with
      | none => exact .null
      | some t => exact hnode (iho t rfl h.2.2)
    simp only [fields, List.forall_mem_cons]
    exact ⟨Expr.isPlain_toJson h.1, hnode (ihs h.2.1), ho, isPlain_line l, nofun⟩
  | declare x t e l =>
    have he := Expr.isPlain_optionToJson (o := e) fun e' he' => h e' (by simpa [rootExprs] using he')
    simp only [fields, List.forall_mem_cons]
    exact ⟨.string x, isPlain_type t, he, isPlain_line l, nofun⟩
  | loop c body k l ih =>
    simp only [rootExprs, List.forall_mem_cons] at h
    simp only [fields, List.forall_mem_cons]
    exact ⟨Expr.isPlain_toJson h.1, hbody (hlist h.2 ih), isPlain_line l, nofun⟩
  | ret e l =>
    have he := Expr.isPlain_optionToJson (o := e) fun e' he' => h e' (by simpa [rootExprs] using he')
    simp only [fields, List.forall_mem_cons]
    exact ⟨he, isPlain_line l, nofun⟩

theorem Program.isPlain_toJson {u : Program} (h : u.isDoubleFree) : IsPlain u.toJson := by
  simp only [isDoubleFree, List.all_eq_true] at h
  refine .object (List.forall_mem_singleton.2 (.array fun j hj => ?_))
  rw [Stmt.listToJson_eq] at hj
  obtain ⟨s, hs, rfl⟩ := List.mem_map.1 hj
  rw [s.toJson_eq]
  exact isPlain_nodeJson (s.isPlain_fields fun e he => h e (Stmt.mem_listRootExprs.2 ⟨s, hs, he⟩))

end TreeWalk
