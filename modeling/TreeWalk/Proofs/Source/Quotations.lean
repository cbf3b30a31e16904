import Mathlib.Tactic.SplitIfs
import TreeWalk.Proofs.Layout.Breaks

/-! Quotations in source text. A quotation starts with a quote and ends with the first quote that no
backslash escapes; between them a backslash and one of five characters stand for one character, and every
other character stands for itself. So where a quotation ends, and what it says, can be told without looking
at the text behind it. A displayed string is a quotation of that string, in a single line and without
tabs. -/

namespace TreeWalk.Source

/-- The escapes: what follows the backslash, and the character that the two stand for. -/
def escapes : List (Char × Char) := [('\\', '\\'), ('"', '"'), ('n', '\n'), ('r', '\r'), ('t', '\t')]

/-- The first characters, between quotes, stand for the second. -/
inductive Denotes : List Char → List Char → Prop where
  | nil : Denotes [] []
  | plain {c : Char} {body cs : List Char} (hquote : c ≠ '"') (hbackslash : c ≠ '\\')
      (h : Denotes body cs) : Denotes (c :: body) (c :: cs)
  | escape {e c : Char} {body cs : List Char} (he : escapes.lookup e = some c) (h : Denotes body cs) :
      Denotes ('\\' :: e :: body) (c :: cs)

/-- Reads on behind an opening quote, up to the first quote that is not escaped. Gives what the characters
before it stand for and what comes behind it. -/
def scanBody : List Char → Option (List Char × List Char)
  | [] => none
  | c :: rest =>
    if c = '"' then some ([], rest)
    else if c = '\\' then
      match rest with
      | [] => none
      | e :: rest => (escapes.lookup e).bind fun c => (scanBody rest).map (Prod.map (c :: ·) id)
    else (scanBody rest).map (Prod.map (c :: ·) id)

/-- Reads a quotation at the start of a text. Gives the string it says and the text behind it. -/
def scanQuotation (text : String) : Option (String × String) :=
  match text.toList with
  | '"' :: rest => (scanBody rest).map (Prod.map String.ofList String.ofList)
  | _ => none

/-! ### What the scanner reads -/

theorem scanBody_quote (rest : List Char) : scanBody ('"' :: rest) = some ([], rest) := by
  rw [scanBody.eq_def]
  simp

theorem scanBody_escape {e c : Char} (he : escapes.lookup e = some c) (rest : List Char) :
    scanBody ('\\' :: e :: rest) = (scanBody rest).map (Prod.map (c :: ·) id) := by
  rw [scanBody.eq_def]
  simp [he]

theorem scanBody_plain {c : Char} (hquote : c ≠ '"') (hbackslash : c ≠ '\\') (rest : List Char) :
    scanBody (c :: rest) = (scanBody rest).map (Prod.map (c :: ·) id) := by
  rw [scanBody.eq_def]
  simp [hquote, hbackslash]

theorem Denotes.scanBody {body cs : List Char} (h : Denotes body cs) (after : List Char) :
    scanBody (body ++ '"' :: after) = some (cs, after) := by
  induction h with
  | nil => exact scanBody_quote after
  | plain hquote hbackslash _ ih =>
    rw [List.cons_append, scanBody_plain hquote hbackslash, ih]
    rfl
  | escape he _ ih =>
    rw [List.cons_append, List.cons_append, scanBody_escape he, ih]
    rfl

example : scanBody ['\\', '\\', '\\', '"', '"', ';'] = some (['\\', '"'], [';']) := by decide

theorem exists_of_map_cons {x : Option (List Char × List Char)} {c : Char} {cs after : List Char}
    (h : x.map (Prod.map (c :: ·) id) = some (cs, after)) : ∃ ds, x = some (ds, after) ∧ cs = c :: ds := by
  obtain ⟨⟨ds, rest⟩, hx, heq⟩ := Option.map_eq_some_iff.1 h
  simp only [Prod.map, id, Prod.mk.injEq] at heq
  obtain ⟨rfl, rfl⟩ := heq
  exact ⟨ds, hx, rfl⟩

theorem exists_denotes_of_scanBody {text cs after : List Char} (h : scanBody text = some (cs, after)) :
    ∃ body, text = body ++ '"' :: after ∧ Denotes body cs := by
  fun_induction scanBody text generalizing cs with
  | case1 => simp at h
  | case2 rest =>
    simp only [Option.some.injEq, Prod.mk.injEq] at h
    obtain ⟨rfl, rfl⟩ := h
    exact ⟨[], rfl, .nil⟩
  | case3 => simp at h
  | case4 e rest hquote ih =>
    obtain ⟨c, he, hmap⟩ := Option.bind_eq_some_iff.1 h
    obtain ⟨ds, hscan, rfl⟩ := exists_of_map_cons hmap
    obtain ⟨body, rfl, hbody⟩ := ih hscan
    exact ⟨'\\' :: e :: body, rfl, .escape he hbody⟩
  | case5 c rest hquote hbackslash ih =>
    obtain ⟨ds, hscan, rfl⟩ := exists_of_map_cons h
    obtain ⟨body, rfl, hbody⟩ := ih hscan
    exact ⟨c :: body, rfl, .plain hquote hbackslash hbody⟩

theorem scanQuotation_eq_some_iff {text s after : String} :
    scanQuotation text = some (s, after) ↔
      ∃ body : String, text = "\"" ++ body ++ "\"" ++ after ∧ Denotes body.toList s.toList := by
  constructor
  · intro h
    unfold scanQuotation at h
    split at h
    · rename_i rest htext
      obtain ⟨⟨cs, ds⟩, hscan, heq⟩ := Option.map_eq_some_iff.1 h
      simp only [Prod.map, Prod.mk.injEq] at heq
      obtain ⟨rfl, rfl⟩ := heq
      obtain ⟨body, rfl, hbody⟩ := exists_denotes_of_scanBody hscan
      refine ⟨String.ofList body, String.toList_inj.1 ?_, ?_⟩
      · simp [htext]
      · simpa using hbody
    · simp at h
  · rintro ⟨body, rfl, hbody⟩
    have htext : ("\"" ++ body ++ "\"" ++ after).toList = '"' :: (body.toList ++ '"' :: after.toList) := by
      simp
    simp only [scanQuotation, htext]
    rw [hbody.scanBody]
    simp

/-! ### Displayed strings -/

/-- A character is displayed as it is, or by an escape that stands for it. -/
theorem escape_plain_or_escaped (c : Char) :
    (Value.escape c = [c] ∧ c ≠ '"' ∧ c ≠ '\\') ∨
      ∃ e, escapes.lookup e = some c ∧ Value.escape c = ['\\', e] := by
  unfold Value.escape
  split_ifs with hbackslash hquote hbreak hreturn htab
  · subst hbackslash
    exact .inr ⟨'\\', rfl, rfl⟩
  · subst hquote
    exact .inr ⟨'"', rfl, rfl⟩
  · subst hbreak
    exact .inr ⟨'n', rfl, rfl⟩
  · subst hreturn
    exact .inr ⟨'r', rfl, rfl⟩
  · subst htab
    exact .inr ⟨'t', rfl, rfl⟩
  · exact .inl ⟨rfl, hquote, hbackslash⟩

theorem denotes_flatMap_escape (cs : List Char) : Denotes (cs.flatMap Value.escape) cs := by
  induction cs with
  | nil => exact .nil
  | cons c cs ih =>
    rw [List.flatMap_cons]
    obtain ⟨hself, hquote, hbackslash⟩ | ⟨e, he, hescape⟩ := escape_plain_or_escaped c
    · rw [hself]
      exact .plain hquote hbackslash ih
    · rw [hescape]
      exact .escape he ih

end TreeWalk.Source

namespace TreeWalk

open Source

/-- A displayed string ends where the scanner says. The scanner reads a text if and only if it starts with a
quotation, and gives what that quotation stands for and the text behind its closing quote. Of a displayed
string with any text behind it, it gives the string and that text. The displayed text has no line break, no
carriage return and no tab. -/
theorem Value.display_string_selfDelimiting :
    (∀ text s after : String, scanQuotation text = some (s, after) ↔
      ∃ body : String, text = "\"" ++ body ++ "\"" ++ after ∧ Denotes body.toList s.toList) ∧
    ∀ s : String,
      (∀ after, scanQuotation ((Value.string s).display ++ after) = some (s, after)) ∧
      '\n' ∉ (Value.string s).display.toList ∧ '\r' ∉ (Value.string s).display.toList ∧
      '\t' ∉ (Value.string s).display.toList := by
  refine ⟨fun text s after => scanQuotation_eq_some_iff, fun s => ⟨fun after => ?_, ?_⟩⟩
  · refine scanQuotation_eq_some_iff.2 ⟨String.ofList (s.toList.flatMap Value.escape), ?_, ?_⟩
    · apply String.toList_inj.1
      simp [Value.display, Value.displayString]
    · rw [String.toList_ofList]
      exact denotes_flatMap_escape s.toList
  · exact ⟨notMem_displayString (by simp) s, notMem_displayString (by simp) s,
      notMem_displayString (by simp) s⟩

end TreeWalk
