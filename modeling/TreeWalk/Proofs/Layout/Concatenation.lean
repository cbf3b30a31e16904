import TreeWalk.Proofs.Layout.Lines

/-! Programs one after the other. The lines of a statement do not depend on what is printed before it, so
the text of two programs together is the text of the first, what separates the two statements that meet,
and the text of the second. The text of a program with statements ends with one line break. -/

namespace TreeWalk

open Printer

namespace Program

/-- What stands between the texts of two statements at the top level. -/
def divider (before after : Stmt) : String :=
  if before.isFunction || after.isFunction then "\n" else ""

theorem linesAfter_some (before : Bool) (s : Stmt) (rest : Program) :
    linesAfter (some before) (s :: rest) = separator (some before) s ++ lines (s :: rest) := by
  rw [lines, linesAfter, linesAfter]
  simp [separator]

/-- The second program sees of the first only whether its last statement is a function. -/
theorem linesAfter_append (afterFunction : Option Bool) {a : Program} (ha : a ≠ []) (b : Program) :
    linesAfter afterFunction (a ++ b) =
      linesAfter afterFunction a ++ linesAfter (some (a.getLast ha).isFunction) b := by
  induction a generalizing afterFunction with
  | nil => exact absurd rfl ha
  | cons s rest ih =>
    cases rest with
    | nil => simp [linesAfter]
    | cons t rest =>
      have hrest : t :: rest ≠ [] := List.cons_ne_nil t rest
      have hlast : (s :: t :: rest).getLast ha = (t :: rest).getLast hrest := List.getLast_cons hrest
      rw [List.cons_append, linesAfter, linesAfter, ih (some s.isFunction) hrest, hlast,
        List.append_assoc, List.append_assoc]

theorem render_separator (width : Nat) (before after : Stmt) :
    render width (separator (some before.isFunction) after) = divider before after := by
  unfold separator divider
  dsimp only
  split <;> simp [indentation_zero]

theorem print_append {a b : Program} (ha : a ≠ []) (hb : b ≠ []) (width : Nat) :
    (a ++ b).print width =
      a.print width ++ divider (a.getLast ha) (b.head hb) ++ b.print width := by
  obtain ⟨t, rest, rfl⟩ := List.exists_cons_of_ne_nil hb
  have hlines : lines (a ++ t :: rest) =
      lines a ++ separator (some (a.getLast ha).isFunction) t ++ lines (t :: rest) := by
    rw [lines, linesAfter_append none ha, linesAfter_some, ← lines, List.append_assoc]
  rw [print_eq, print_eq, print_eq, hlines, render_append, render_append, render_separator,
    List.head_cons]

/-- The last line of a program ends with a semicolon or a brace, and then with a line break. -/
theorem exists_print_eq_push {u : Program} (hu : u ≠ []) (width : Nat) :
    ∃ (text : String) (c : Char), c ≠ '\n' ∧ u.print width = (text.push c).push '\n' := by
  obtain ⟨init, depth, text, mark, hmark, hlines⟩ := ended_linesAfter none u hu
  have hprint : u.print width =
      render width init ++ indentation width depth ++ text ++ mark ++ "\n" := by
    rw [print_eq, lines, hlines]
    simp [String.append_assoc]
  simp only [List.mem_cons, List.not_mem_nil, or_false] at hmark
  rcases hmark with rfl | rfl
  · exact ⟨render width init ++ indentation width depth ++ text, ';', by decide, hprint⟩
  · exact ⟨render width init ++ indentation width depth ++ text, '\x7d', by decide, hprint⟩

/-- Printing goes over from the parts of a program to the whole: an empty line is added where a function
meets another statement and nothing otherwise. The text of a program with statements ends with exactly one
line break, and without statements there is no text. -/
theorem print_concatenates (width : Nat) :
    (∀ (a b : Program) (ha : a ≠ []) (hb : b ≠ []), (a ++ b).print width =
      a.print width ++ divider (a.getLast ha) (b.head hb) ++ b.print width) ∧
    (∀ u : Program, u ≠ [] →
      ∃ (text : String) (c : Char), c ≠ '\n' ∧ u.print width = (text.push c).push '\n') ∧
    print [] width = "" :=
  ⟨fun _ _ ha hb => print_append ha hb width, fun _ hu => exists_print_eq_push hu width, rfl⟩

/-- A function and the statement after it, which is printed with an empty line before it. -/
theorem print_concatenates_function :
    let f : Stmt := .function "f" .void [] [.ret none 2] 1 1
    let p : Stmt := .print (.access "x" 3) 3
    [f] ≠ [] ∧ [p] ≠ [] ∧ print [f, p] 2 = print [f] 2 ++ "\n" ++ print [p] 2 := by
  intro f p
  have hf : [f] ≠ [] := List.cons_ne_nil f []
  have hp : [p] ≠ [] := List.cons_ne_nil p []
  exact ⟨hf, hp, (print_concatenates 2).1 [f] [p] hf hp⟩

end Program

end TreeWalk
