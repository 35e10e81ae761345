import PocketCalculator.Proofs.Cutting
import PocketCalculator.Proofs.Results

/-!
# Legible lexemes

A lexeme is legible when it stands for a token or is skipped: a function name of
canonical text, a number, a mark of arithmetic or a blank.  Whatever `Token.read`
takes consists of legible lexemes (`Reads.legible`).

The notation cuts the same text into smaller lexemes, because the point is no figure
there.  `pieces` are the lexemes that the notation cuts a lexeme into, and a text is
cut into the pieces of its lexemes (`split_isDigit`).
-/

namespace PocketCalculator

namespace Lexeme

/-! ## What can be read -/

/-- The marks of arithmetic. -/
def arithmeticMarks : Text := "()+-*/".toList

/-- The lexemes that reading accepts. -/
def Legible : Lexeme → Prop
  | word name => ∃ f : Function, name = f.text
  | number _ => True
  | mark c => c ∈ arithmeticMarks ∨ isBlank c = true

/-- What is neither a mark of arithmetic nor blank is not read. -/
theorem ne_of_legible {c d : Char} (h : (mark c).Legible)
    (hd : d ∉ arithmeticMarks ∧ isBlank d = false) : c ≠ d := by
  rintro rfl
  rcases h with h | h
  · exact hd.1 h
  · simp [hd.2] at h

theorem token_of_word {name : Text} {t : Option Token} (h : Token.ofLexeme (word name) = .ok t) :
    ∃ f : Function, name = f.text ∧ t = some (.function f) := by
  simp only [Token.ofLexeme] at h
  split at h
  case h_1 f hf =>
    cases h
    have hname : f.text = name := by simpa using List.find?_some hf
    exact ⟨f, hname.symm, rfl⟩
  case h_2 => cases h

theorem token_of_number {figures : Text} {t : Option Token}
    (h : Token.ofLexeme (number figures) = .ok t) : ∃ x, t = some (.number x) := by
  simp only [Token.ofLexeme] at h
  split at h
  · exact ⟨_, (Except.ok.inj h).symm⟩
  · cases h

/-- A mark of arithmetic is a token, and a blank is none. -/
theorem token_of_mark {c : Char} {t : Option Token} (h : Token.ofLexeme (mark c) = .ok t) :
    (c ∈ arithmeticMarks ∧ t ≠ none) ∨ (isBlank c = true ∧ t = none) := by
  have h : Token.ofMark c = .ok t := h
  unfold Token.ofMark at h
  split at h
  case h_7 =>
    split at h
    case isTrue hblank =>
      cases h
      exact .inr ⟨hblank, rfl⟩
    case isFalse => cases h
  all_goals
    cases h
    exact .inl ⟨by decide, by simp⟩

theorem legible_of_ofLexeme {l : Lexeme} {t : Option Token} (h : Token.ofLexeme l = .ok t) :
    l.Legible := by
  cases l with
  | word name =>
    obtain ⟨f, hname, -⟩ := token_of_word h
    exact ⟨f, hname⟩
  | number figures => trivial
  | mark c => exact (token_of_mark h).imp And.left And.left

/-- Blanks are neither part of a word nor of a number. -/
theorem not_isFigure_of_isBlank {c : Char} (h : isBlank c = true) :
    startsWord c = false ∧ Token.isFigure c = false := by
  obtain ⟨hword, hdigit⟩ := not_startsWord_of_isBlank h
  have hpoint : c ≠ '.' := by
    rintro rfl
    exact absurd h (by decide)
  exact ⟨hword, by simp [Token.isFigure, hdigit, hpoint]⟩

/-- How lexemes are read: two stars are a power, and every other lexeme is a token or
is skipped. -/
inductive Reads : List Lexeme → List Token → Prop
  | nil : Reads [] []
  | power {rest : List Lexeme} {ts : List Token} (hrest : Reads rest ts) :
      Reads (mark '*' :: mark '*' :: rest) (.operator .pow :: ts)
  | lexeme {l : Lexeme} {t : Option Token} {rest : List Lexeme} {ts : List Token}
      (hl : Token.ofLexeme l = .ok t) (hrest : Reads rest ts) : Reads (l :: rest) (t.toList ++ ts)

theorem reads_of_ofLexemes {ls : List Lexeme} {ts : List Token}
    (h : Token.ofLexemes ls = .ok ts) : Reads ls ts := by
  fun_induction Token.ofLexemes ls generalizing ts with
  | case1 =>
    cases h
    exact .nil
  | case2 rest ih =>
    obtain ⟨behind, hrest, rfl⟩ := exists_ok_of_map h
    exact .power (ih hrest)
  | case3 l rest hstars fault hl => cases h
  | case4 l rest hstars hl ih => exact .lexeme hl (ih h)
  | case5 l rest hstars t hl ih =>
    obtain ⟨behind, hrest, rfl⟩ := exists_ok_of_map h
    exact .lexeme hl (ih hrest)

theorem Reads.legible {ls : List Lexeme} {ts : List Token} (h : Reads ls ts) :
    ∀ l ∈ ls, l.Legible := by
  induction h with
  | nil => simp
  | power _ ih =>
    have hstar : (mark '*').Legible := .inl (by decide)
    simpa [hstar] using ih
  | lexeme hl _ ih => simpa [legible_of_ofLexeme hl] using ih

/-! ## Pieces -/

/-- The lexemes that the notation cuts a lexeme into. -/
def pieces (l : Lexeme) : List Lexeme := split Char.isDigit l.text

theorem isFigure_of_isDigit (c : Char) (h : c.isDigit = true) : Token.isFigure c = true := by
  simp [Token.isFigure, h]

/-- The notation cuts a text into the pieces of the lexemes that are read. -/
theorem split_isDigit (s : Text) :
    split Char.isDigit s = (split Token.isFigure s).flatMap pieces :=
  split_refine isFigure_of_isDigit s

/-- The pieces of a function name. -/
theorem pieces_function (f : Function) :
    (word f.text).pieces = if f = .factorial then [word Function.factorial.text]
      else [word Function.qualifier, mark '.', word f.name] := by
  cases f <;> decide

theorem pieces_mark {c : Char} (h : (mark c).Proper Token.isFigure) :
    (mark c).pieces = [mark c] :=
  split_mark_of_finer isFigure_of_isDigit h []

/-- The pieces of a number are digits and points. -/
theorem pieces_number {figures : Text} (h : (number figures).Proper Token.isFigure) :
    ∀ x ∈ (number figures).pieces, (∃ digits, x = number digits) ∨ x = mark '.' := by
  intro x hx
  cases x with
  | word name => exact absurd rfl (ne_word_of_mem_split h hx name)
  | number digits => exact .inl ⟨digits, rfl⟩
  | mark c =>
    have hc : c ∈ figures := by
      rw [← render_split Char.isDigit figures]
      exact List.mem_flatMap.mpr ⟨_, hx, List.mem_singleton.mpr rfl⟩
    have hfigure : Token.isFigure c = true := (h.2 c hc).2
    have hdigit : c.isDigit = false := ((cut_split _ _).proper hx).2
    have hpoint : c = '.' := by simpa [Token.isFigure, hdigit] using hfigure
    exact .inr (by rw [hpoint])

end Lexeme

end PocketCalculator
