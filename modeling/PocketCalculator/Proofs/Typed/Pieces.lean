import PocketCalculator.Notation.FactorialSign
import PocketCalculator.Proofs.Cutting
import PocketCalculator.Proofs.Typed.Notation
import PocketCalculator.Token.Reader

/-!
# Pieces of typed text

A derivation of the calculator notation is a row of pieces: blanks, signs, numerals,
factorials and parentheses.  Every step of the normalization rewrites pieces one by
one, so a row has its lexemes in every stage of it (`rowLexemes`).

Which piece may follow which is said by `Flows`.  It has to know what an operand
leaves behind, since a number in front of a parenthesis is a factor and a minus
behind an operand is a subtraction.  In a row that flows the lexemes stay apart, in
whatever stage it is (`cut_rowLexemes`).
-/

namespace PocketCalculator.Notation

open Lexeme

/-- What an opening parenthesis belongs to. -/
inductive Opening
  | group
  | call (f : Called)
  | root

/-- A piece of typed text.  A factorial is one piece with its numeral, and a minus
directly before it belongs to that piece too; `touch` is a product without a sign. -/
inductive Piece
  | blank (c : Blank)
  | minus
  | numeral (n : Figures)
  | factorial (n : Figures)
  | negated (n : Figures)
  | opening (o : Opening)
  | closing
  | operator (o : Operator)
  | touch

/-! ## Which piece follows which -/

/-- What stands in front of a piece: nothing that ends an operand, a sign, a number,
another operand, an operand and blanks, or an operand that is multiplied by the
piece. -/
inductive Before
  | nothing
  | sign
  | number
  | operand
  | blank
  | numberTouched
  | operandTouched
deriving DecidableEq

namespace Before

/-- Whether an operand stands in front. -/
def hasOperand : Before → Bool
  | number | operand | blank => true
  | _ => false

/-- What stands in front of the next piece, if the piece may stand here. -/
def step : Before → Piece → Option Before
  | nothing, .blank _ => some nothing
  | number, .blank _ | operand, .blank _ | blank, .blank _ => some blank
  | number, .closing | operand, .closing | blank, .closing => some operand
  | number, .operator _ | operand, .operator _ | blank, .operator _ => some nothing
  | number, .touch => some numberTouched
  | operand, .touch => some operandTouched
  | nothing, .minus | sign, .minus => some sign
  | nothing, .negated _ | sign, .negated _ => some operand
  | nothing, .numeral _ | sign, .numeral _ | operandTouched, .numeral _ => some number
  | nothing, .factorial _ | operandTouched, .factorial _ => some operand
  | nothing, .opening _ | sign, .opening _ | numberTouched, .opening _
  | operandTouched, .opening _ => some nothing
  | _, _ => none

variable {s s' : Before}

theorem step_blank {c : Blank} (h : s.step (.blank c) = some s') :
    s'.hasOperand = s.hasOperand ∧ (s' = .nothing ∨ s' = .blank) := by
  cases s <;> cases h <;> decide

theorem step_minus (h : s.step .minus = some s') : s.hasOperand = false ∧ s' = .sign := by
  cases s <;> cases h <;> decide

theorem step_numeral {n : Figures} (h : s.step (.numeral n) = some s') :
    s.hasOperand = false ∧ s' = .number := by
  cases s <;> cases h <;> decide

theorem step_factorial {n : Figures} (h : s.step (.factorial n) = some s') :
    s.hasOperand = false ∧ s ≠ .sign ∧ s' = .operand := by
  cases s <;> cases h <;> decide

theorem step_negated {n : Figures} (h : s.step (.negated n) = some s') :
    s.hasOperand = false ∧ s' = .operand := by
  cases s <;> cases h <;> decide

theorem step_opening {o : Opening} (h : s.step (.opening o) = some s') :
    s.hasOperand = false ∧ s' = .nothing := by
  cases s <;> cases h <;> decide

theorem step_closing (h : s.step .closing = some s') : s.hasOperand = true ∧ s' = .operand := by
  cases s <;> cases h <;> decide

theorem step_operator {o : Operator} (h : s.step (.operator o) = some s') :
    s.hasOperand = true ∧ s' = .nothing := by
  cases s <;> cases h <;> decide

theorem step_touch (h : s.step .touch = some s') :
    s = .number ∧ s' = .numberTouched ∨ s = .operand ∧ s' = .operandTouched := by
  cases s <;> cases h <;> decide

end Before

/-- Whether pieces may stand in a row behind what stands in front, and end in an
operand. -/
def Flows : Before → List Piece → Prop
  | s, [] => s = .number ∨ s = .operand
  | s, p :: ps => ∃ s', s.step p = some s' ∧ Flows s' ps

/-- Whether a row begins with a product that has no sign. -/
def startsTouch : List Piece → Bool
  | .touch :: _ => true
  | _ => false

/-- The row behind a leading product without a sign. -/
def dropTouch : List Piece → List Piece
  | .touch :: ps => ps
  | ps => ps

/-! ## Stages -/

/-- Which steps have been made.  In the end tokens are read, and there a numeral and
a qualified name are one lexeme each. -/
structure Stage where
  starred : Bool := false
  raised : Bool := false
  called : Bool := false
  qualified : Bool := false
  joined : Bool := false

namespace Stage

variable (σ : Stage)

/-- The characters of numbers. -/
def figure : Char → Bool := if σ.joined then Token.isFigure else Char.isDigit

/-- The lexemes of a numeral. -/
def numeral (n : Figures) : List Lexeme :=
  if σ.joined then [number n.text]
  else
    match n.fraction with
    | none => [number n.whole.text]
    | some f => [number n.whole.text, mark '.', number f.text]

/-- The lexemes of a qualified name. -/
def name (f : Function) : List Lexeme :=
  if σ.joined then [word f.text] else [word Function.qualifier, mark '.', word f.name]

/-- The lexemes of a piece. -/
def lexemes : Piece → List Lexeme
  | .blank c => [mark c]
  | .minus => [mark '-']
  | .numeral n => σ.numeral n
  | .factorial n =>
    if σ.called then factorialCall (σ.numeral n) [] else σ.numeral n ++ [mark '!']
  | .negated n =>
    if σ.called then factorialCall (mark '-' :: σ.numeral n) []
    else mark '-' :: σ.numeral n ++ [mark '!']
  | .opening .group => [mark '(']
  | .opening (.call f) =>
    if σ.qualified then σ.name f.function ++ [mark '('] else [word f.text, mark '(']
  | .opening .root => σ.name .sqrt ++ [mark '(']
  | .closing => [mark ')']
  | .operator .pow => if σ.raised then [mark '*', mark '*'] else [mark '^']
  | .operator o => o.text.map mark
  | .touch => if σ.starred then [mark '*'] else []

/-- Roots are calls, and the rest is as it was typed. -/
def rooted : Stage := {}

/-- Products have their star. -/
def multiplied : Stage := { rooted with starred := true }

/-- Powers are written with two stars. -/
def powered : Stage := { multiplied with raised := true }

/-- Factorials are calls. -/
def expanded : Stage := { powered with called := true }

/-- Called names are qualified. -/
def canonical : Stage := { expanded with qualified := true }

/-- What tokens are read from. -/
def read : Stage := { canonical with joined := true }

end Stage

/-- The lexemes of a row. -/
def rowLexemes (σ : Stage) (ps : List Piece) : List Lexeme := ps.flatMap σ.lexemes

theorem lexemes_factorial {σ : Stage} (hσ : σ.called = false) (n : Figures)
    (rest : List Lexeme) :
    σ.lexemes (.factorial n) ++ rest = σ.numeral n ++ mark '!' :: rest := by
  rw [Stage.lexemes, hσ, if_neg (by decide), List.append_assoc]
  rfl

theorem lexemes_negated {σ : Stage} (hσ : σ.called = false) (n : Figures)
    (rest : List Lexeme) :
    σ.lexemes (.negated n) ++ rest = mark '-' :: (σ.numeral n ++ mark '!' :: rest) := by
  rw [Stage.lexemes, hσ, if_neg (by decide), List.cons_append, List.cons_append,
    List.append_assoc]
  rfl

@[simp] theorem rowLexemes_nil (σ : Stage) : rowLexemes σ [] = [] := rfl

@[simp] theorem rowLexemes_cons (σ : Stage) (p : Piece) (ps : List Piece) :
    rowLexemes σ (p :: ps) = σ.lexemes p ++ rowLexemes σ ps := rfl

@[simp] theorem rowLexemes_append (σ : Stage) (ps qs : List Piece) :
    rowLexemes σ (ps ++ qs) = rowLexemes σ ps ++ rowLexemes σ qs := List.flatMap_append

/-! ## What follows an operand -/

/-- A blank is none of the marks of the notation. -/
theorem blank_ne (c : Blank) {d : Char} (hd : d ∈ "+-*/^().!√".toList) : c.val ≠ d := by
  rintro rfl
  have hmarks : "+-*/^().!√".toList.all (!isBlank ·) = true := by decide
  have hblank := List.all_eq_true.mp hmarks c.val hd
  simp [c.property] at hblank

/-- Behind an operand the row ends, goes on with a mark that the operand takes no
notice of, or is multiplied. -/
theorem Flows.behind_operand {s : Before} {ps : List Piece} (h : Flows s ps)
    (hs : s.hasOperand = true) (σ : Stage) :
    ps = [] ∨
      (startsTouch ps = false ∧ ∃ c rest, rowLexemes σ ps = mark c :: rest ∧ c ∉ "(.!".toList) ∨
      ∃ rest, ps = .touch :: rest ∧
        (s = .number ∧ Flows .numberTouched rest ∨ s = .operand ∧ Flows .operandTouched rest) := by
  cases ps with
  | nil => exact .inl rfl
  | cons p ps =>
    obtain ⟨s', hstep, hps⟩ := h
    cases p with
    | blank c =>
      have hopening : c.val ≠ '(' := blank_ne c (by decide)
      have hpoint : c.val ≠ '.' := blank_ne c (by decide)
      have hbang : c.val ≠ '!' := blank_ne c (by decide)
      exact .inr (.inl ⟨rfl, c, _, rfl, by simp [hopening, hpoint, hbang]⟩)
    | closing => exact .inr (.inl ⟨rfl, ')', _, rfl, by decide⟩)
    | operator o =>
      obtain ⟨_, raised, _⟩ := σ
      refine .inr (.inl ⟨rfl, ?_⟩)
      cases o with
      | pow => cases raised <;> exact ⟨_, _, rfl, by decide⟩
      | add | sub | mul | div => exact ⟨_, _, rfl, by decide⟩
    | touch =>
      refine .inr (.inr ⟨ps, rfl, ?_⟩)
      cases s <;> simp_all [Before.step, Before.hasOperand]
    | minus | numeral | factorial | negated | opening =>
      cases s <;> simp [Before.step, Before.hasOperand] at hstep hs

/-- What an operand is multiplied by without a sign begins with a parenthesis, or it
is a numeral or a factorial and no number stands in front. -/
theorem Flows.behind_touch {s : Before} {ps : List Piece} (h : Flows s ps)
    (hs : s = .numberTouched ∨ s = .operandTouched) :
    (∃ o rest, ps = .opening o :: rest) ∨
      s = .operandTouched ∧ ∃ n rest, ps = .numeral n :: rest ∨ ps = .factorial n :: rest := by
  cases ps with
  | nil => rcases hs with rfl | rfl <;> simp [Flows] at h
  | cons p ps =>
    obtain ⟨s', hstep, -⟩ := h
    cases p <;> rcases hs with rfl | rfl <;> simp_all [Before.step]

/-! ## The lexemes of a row stay apart -/

section Cut

variable (σ : Stage)

theorem figure_of_isDigit {c : Char} (h : c.isDigit = true) : σ.figure c = true := by
  unfold Stage.figure
  split <;> simp [Token.isFigure, h]

theorem proper_digits (d : DigitRun) : (number d.text).Proper σ.figure := by
  refine ⟨d.ne_nil, ?_⟩
  intro c hc
  have hdigit := d.isDigit c hc
  exact ⟨startsWord_of_isDigit hdigit, figure_of_isDigit σ hdigit⟩

theorem proper_word {w : Text} (h : (word w).Proper Char.isDigit) :
    (word w).Proper σ.figure :=
  ⟨h.1, fun c hc => (h.2 c hc).imp_right (figure_of_isDigit σ)⟩

theorem proper_mark {c : Char} (hc : c ∈ "+-*/^()!".toList) : (mark c).Proper σ.figure := by
  have hmarks : "+-*/^()!".toList.all
      (fun c => (mark c).isProper Char.isDigit && (mark c).isProper Token.isFigure) = true := by
    decide
  have hboth := Bool.and_eq_true_iff.mp (List.all_eq_true.mp hmarks c hc)
  unfold Stage.figure
  split
  · exact isProper_iff.mp hboth.2
  · exact isProper_iff.mp hboth.1

theorem proper_blank (c : Blank) : (mark c.val).Proper σ.figure := by
  obtain ⟨hstart, hdigit⟩ := not_startsWord_of_isBlank c.property
  have hpoint : c.val ≠ '.' := blank_ne c (by decide)
  refine ⟨hstart, ?_⟩
  unfold Stage.figure
  split <;> simp [Token.isFigure, hdigit, hpoint]

theorem cut_numeral (n : Figures) : Cut σ.figure (σ.numeral n) := by
  obtain ⟨_, _, _, _, joined⟩ := σ
  obtain ⟨whole, _ | fraction⟩ := n
  · cases joined <;> exact ⟨proper_digits _ whole, by simp, trivial⟩
  · cases joined with
    | false =>
      exact ⟨proper_digits _ whole, by simp, ⟨rfl, rfl⟩, by simp, proper_digits _ fraction, by simp,
        trivial⟩
    | true =>
      refine ⟨⟨by simp [Figures.text], ?_⟩, by simp, trivial⟩
      intro c hc
      simp only [Figures.text, List.mem_append, List.mem_cons] at hc
      rcases hc with hc | rfl | hc
      · exact (proper_digits _ whole).2 c hc
      · exact ⟨rfl, rfl⟩
      · exact (proper_digits _ fraction).2 c hc

theorem proper_text (f : Function) : (word f.text).Proper Token.isFigure := by
  cases f <;> decide

theorem cut_name (f : Function) : Cut σ.figure (σ.name f ++ [mark '(']) := by
  have hopening : Cut σ.figure [mark '('] := cut_mark_cons.mpr ⟨proper_mark σ (by decide), trivial⟩
  obtain ⟨_, _, _, _, joined⟩ := σ
  cases joined with
  | false =>
    have hname : (word f.name).Proper Char.isDigit := by cases f <;> decide
    exact ⟨proper_word _ (by decide), by simp, ⟨rfl, rfl⟩, by simp, proper_word _ hname, by simp,
      hopening⟩
  | true => exact ⟨proper_text f, by simp, hopening⟩

theorem cut_factorial {inner : List Lexeme} (h : Cut σ.figure inner) :
    Cut σ.figure (factorialCall inner []) := by
  have hname : (word Function.factorial.text).Proper σ.figure := proper_word σ (by decide)
  have hinner : Cut σ.figure (inner ++ [mark ')']) :=
    h.append (cut_mark_cons.mpr ⟨proper_mark σ (by decide), trivial⟩) (by simp)
  exact ⟨hname, by simp, cut_mark_cons.mpr ⟨proper_mark σ (by decide), hinner⟩⟩

theorem cut_lexemes (p : Piece) : Cut σ.figure (σ.lexemes p) := by
  have hmark {c : Char} (hc : c ∈ "+-*/^()!".toList) : Cut σ.figure [mark c] :=
    cut_mark_cons.mpr ⟨proper_mark σ hc, trivial⟩
  cases p with
  | blank c => exact cut_mark_cons.mpr ⟨proper_blank σ c, trivial⟩
  | minus | closing => exact hmark (by decide)
  | numeral n => exact cut_numeral σ n
  | factorial n =>
    rw [Stage.lexemes]
    split
    · exact cut_factorial σ (cut_numeral σ n)
    · exact (cut_numeral σ n).append (hmark (by decide)) (by simp)
  | negated n =>
    have hsigned : Cut σ.figure (mark '-' :: σ.numeral n) :=
      cut_mark_cons.mpr ⟨proper_mark σ (by decide), cut_numeral σ n⟩
    rw [Stage.lexemes]
    split
    · exact cut_factorial σ hsigned
    · exact hsigned.append (hmark (by decide)) (by simp)
  | opening o =>
    cases o with
    | group => exact hmark (by decide)
    | call f =>
      have hname : (word f.text).Proper σ.figure := proper_word σ (by cases f <;> decide)
      rw [Stage.lexemes]
      split
      · exact cut_name σ _
      · exact ⟨hname, by simp, hmark (by decide)⟩
    | root => exact cut_name σ _
  | operator o =>
    cases o with
    | pow =>
      rw [Stage.lexemes]
      split
      · exact cut_mark_cons.mpr ⟨proper_mark σ (by decide), hmark (by decide)⟩
      · exact hmark (by decide)
    | add | sub | mul | div => exact hmark (by decide)
  | touch =>
    rw [Stage.lexemes]
    split
    · exact hmark (by decide)
    · trivial

theorem getLast?_numeral (n : Figures) :
    ∀ l ∈ (σ.numeral n).getLast?, ∃ figures, l = number figures := by
  unfold Stage.numeral
  split
  · simp
  · split <;> simp

/-- The last lexeme of a piece is a mark, numerals aside. -/
theorem getLast?_lexemes (p : Piece) :
    (∃ n, p = .numeral n) ∨ ∀ l ∈ (σ.lexemes p).getLast?, ∃ c, l = mark c := by
  cases p with
  | numeral n => exact .inl ⟨n, rfl⟩
  | blank | minus | closing => exact .inr (by simp [Stage.lexemes])
  | factorial | negated =>
    refine .inr ?_
    rw [Stage.lexemes]
    split <;> simp [factorialCall, List.getLast?_cons]
  | opening o =>
    refine .inr ?_
    cases o with
    | group | root => simp [Stage.lexemes]
    | call f =>
      rw [Stage.lexemes]
      split <;> simp
  | operator o =>
    refine .inr ?_
    cases o with
    | pow =>
      rw [Stage.lexemes]
      split <;> simp
    | add | sub | mul | div => simp [Stage.lexemes, Operator.text]
  | touch =>
    refine .inr ?_
    rw [Stage.lexemes]
    split <;> simp

theorem head?_name (f : Function) (rest : List Lexeme) :
    ∃ w, (σ.name f ++ rest).head? = some (word w) := by
  unfold Stage.name
  split <;> exact ⟨_, rfl⟩

/-- Whatever is opened begins with a mark or a word. -/
theorem head?_opening (o : Opening) (rest : List Lexeme) :
    (∃ c, (σ.lexemes (.opening o) ++ rest).head? = some (mark c)) ∨
      ∃ w, (σ.lexemes (.opening o) ++ rest).head? = some (word w) := by
  cases o with
  | group => exact .inl ⟨'(', rfl⟩
  | call f =>
    rw [Stage.lexemes]
    split
    · rw [List.append_assoc]
      exact .inr (head?_name σ _ _)
    · exact .inr ⟨f.text, rfl⟩
  | root =>
    rw [Stage.lexemes, List.append_assoc]
    exact .inr (head?_name σ _ _)

/-- A number does not stand in front of a number. -/
theorem Flows.apart_number {ps : List Piece} (h : Flows .number ps) (figures : Text) :
    ∀ l ∈ (rowLexemes σ ps).head?, (number figures).Apart l := by
  rcases h.behind_operand rfl σ with rfl | ⟨-, c, rest, hmark, -⟩ | ⟨rest, rfl, hrest⟩
  · simp
  · simp [hmark]
  · obtain ⟨-, hrest⟩ : Before.number = .number ∧ Flows .numberTouched rest := by
      simpa using hrest
    rcases hrest.behind_touch (.inl rfl) with ⟨o, rest, rfl⟩ | ⟨hs, -⟩
    · rw [rowLexemes_cons, rowLexemes_cons, Stage.lexemes]
      split
      · simp
      · rcases head?_opening σ o (rowLexemes σ rest) with ⟨c, hc⟩ | ⟨w, hw⟩
        · simp [hc]
        · simp [hw]
    · cases hs

/-- The lexemes of a row that flows are those that its text is cut into. -/
theorem cut_rowLexemes {s : Before} {ps : List Piece} (h : Flows s ps) :
    Cut σ.figure (rowLexemes σ ps) := by
  induction ps generalizing s with
  | nil => trivial
  | cons p ps ih =>
    obtain ⟨s', hstep, hps⟩ := h
    refine (cut_lexemes σ p).append (ih hps) ?_
    intro x hx y hy
    rcases getLast?_lexemes σ p with ⟨n, rfl⟩ | hmark
    · obtain ⟨-, rfl⟩ := Before.step_numeral hstep
      obtain ⟨figures, rfl⟩ := getLast?_numeral σ n x hx
      exact hps.apart_number σ figures y hy
    · obtain ⟨c, rfl⟩ := hmark x hx
      simp

end Cut

end PocketCalculator.Notation
