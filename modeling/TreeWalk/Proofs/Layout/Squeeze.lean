import TreeWalk.Proofs.Source.Scanner

/-! Source text without its layout: every run of blanks outside quotations becomes one blank. The tokens
of a text are those of the squeezed text, as a quotation is kept as it is and the number of blanks
between two tokens does not matter. -/

namespace TreeWalk.Source

/-- Where squeezing is in a text: outside a quotation, there after a blank, in a quotation or there
after a backslash. -/
inductive Squeezing where
  | outside
  | blank
  | inside
  | escaped
deriving DecidableEq, Repr

namespace Squeezing

/-- After a character that is not a blank and not in a quotation. -/
def afterMark (c : Char) : Squeezing := if c = '"' then .inside else .outside

/-- Replaces every run of blanks outside quotations by one blank. -/
def squeeze : Squeezing → List Char → List Char
  | _, [] => []
  | .outside, c :: cs => if isBlank c then ' ' :: squeeze .blank cs else c :: squeeze (afterMark c) cs
  | .blank, c :: cs => if isBlank c then squeeze .blank cs else c :: squeeze (afterMark c) cs
  | .inside, c :: cs =>
    c :: squeeze (if c = '"' then .outside else if c = '\\' then .escaped else .inside) cs
  | .escaped, c :: cs => c :: squeeze .inside cs

/-- The scanner is in a quotation if squeezing is, and between two tokens after a blank. -/
def Follows : Squeezing → Pending → Prop
  | .outside, p => ∀ t, p ≠ .quoted t ∧ p ≠ .escaped t
  | .blank, p => p = .nothing
  | .inside, p => ∃ t, p = .quoted t
  | .escaped, p => ∃ t, p = .escaped t

theorem Follows.outside_of_blank {p : Pending} (h : Follows .blank p) : Follows .outside p := by
  intro t
  rw [show p = .nothing from h]
  simp

end Squeezing

/-- A text with one blank for every run of blanks outside quotations. -/
def squeeze (text : String) : String := String.ofList (Squeezing.squeeze .outside text.toList)

open Squeezing

theorem isBreak_of_isBlank {c : Char} (h : isBlank c) : isBreak c := by
  simp only [isBlank, Bool.or_eq_true, beq_iff_eq] at h
  rcases h with rfl | rfl <;> rfl

/-- A blank outside a quotation ends the token before it, whichever blank it is. -/
theorem step_blank {s : Scanner} {c : Char} (hs : Follows .outside s.pending) (hc : isBlank c) :
    s.step c = ⟨s.settle.tokens, .nothing⟩ := by
  have hp : s.settle.pending = .nothing := by
    obtain ⟨ts, p⟩ := s
    cases p with
    | quoted t => exact absurd rfl (hs t).1
    | escaped t => exact absurd rfl (hs t).2
    | _ => rfl
  rw [← step_settle hp (isBreak_of_isBlank hc)]
  simp [Scanner.step, hp, Scanner.start, hc]

/-- What a token starts with says whether it is a quotation. -/
theorem follows_start (ts : List Token) {c : Char} (hc : isBlank c = false) :
    Follows (afterMark c) (Scanner.start ts c).pending := by
  simp only [Scanner.start, hc, Bool.false_eq_true, if_false]
  by_cases hq : c = '"'
  · subst hq
    exact ⟨[], rfl⟩
  · simp only [afterMark, hq, if_false]
    intro t
    split_ifs <;> simp

theorem follows_step {s : Scanner} {c : Char} (hs : Follows .outside s.pending)
    (hc : isBlank c = false) : Follows (afterMark c) (s.step c).pending := by
  obtain ⟨ts, p⟩ := s
  -- A character that goes on with a token outside a quotation is no quotation mark.
  have hout (h : c ≠ '"') {p : Pending} (hp : Follows .outside p) : Follows (afterMark c) p := by
    rwa [afterMark, if_neg h]
  cases p with
  | nothing => exact follows_start ts hc
  | word w =>
    simp only [Scanner.step]
    split_ifs with hw
    · exact hout (by rintro rfl; simp [isWordChar] at hw) fun t => by simp
    · exact follows_start _ hc
  | number n =>
    simp only [Scanner.step]
    split_ifs with hd
    · exact hout (by rintro rfl; simp at hd) fun t => by simp
    · exact follows_start _ hc
  | quoted t => exact absurd rfl (hs t).1
  | escaped t => exact absurd rfl (hs t).2
  | mark a =>
    simp only [Scanner.step]
    split_ifs with hm
    · exact hout (by rintro rfl; simp [continues] at hm) fun t => by simp
    · exact follows_start _ hc

/-- Squeezing does not change what the scanner reads. -/
theorem run_squeeze (m : Squeezing) {s : Scanner} (hs : Follows m s.pending) (cs : List Char) :
    s.run (m.squeeze cs) = s.run cs := by
  induction cs generalizing m s with
  | nil => cases m <;> rfl
  | cons c cs ih =>
    cases m with
    | outside =>
      rw [Squeezing.squeeze]
      split_ifs with hc
      · have hblank : s.step ' ' = s.step c := by rw [step_blank hs hc, step_blank hs rfl]
        have hnext : Follows .blank (s.step c).pending := by
          rw [step_blank hs hc]
          rfl
        rw [Scanner.run_cons, Scanner.run_cons, hblank, ih .blank hnext]
      · exact ih _ (follows_step hs (Bool.not_eq_true _ ▸ hc))
    | blank =>
      have hout := hs.outside_of_blank
      obtain ⟨ts, p⟩ := s
      obtain rfl : p = .nothing := hs
      rw [Squeezing.squeeze]
      split_ifs with hc
      · rw [Scanner.run_cons, step_blank hout hc]
        exact ih .blank rfl
      · exact ih _ (follows_step hout (Bool.not_eq_true _ ▸ hc))
    | inside =>
      obtain ⟨ts, p⟩ := s
      obtain ⟨t, rfl⟩ := hs
      rw [Squeezing.squeeze]
      refine ih _ ?_
      simp only [Scanner.step]
      split_ifs
      · simp [Follows]
      · exact ⟨t, rfl⟩
      · exact ⟨_, rfl⟩
    | escaped =>
      obtain ⟨ts, p⟩ := s
      obtain ⟨t, rfl⟩ := hs
      exact ih .inside ⟨_, rfl⟩

/-- The tokens of a text are those of the squeezed text. -/
theorem scan_squeeze (text : String) : scan (squeeze text) = scan text := by
  have hrun := run_squeeze .outside (s := {}) (by simp [Follows]) text.toList
  rw [scan, squeeze, String.toList_ofList, hrun, scan]

end TreeWalk.Source
