import PocketCalculator.Proofs.Accepted
import PocketCalculator.Proofs.Number.Double
import PocketCalculator.Proofs.Number.Numerals
import PocketCalculator.Proofs.Results
import PocketCalculator.Proofs.StackEvaluation
import PocketCalculator.Proofs.Typed.Meaning

/-!
# Reading shown numbers

What the calculator shows as a number can be typed.  Without an exponent it is a numeral,
perhaps behind a minus, and its value is the number that was shown (`compute_signed`).  With an
exponent it is no numeral of the notation: the letter stands in the text as the name of a
function that there is not, and the text is refused (`compute_scientific`).

`Display.compute_result` says which of the two it is.
-/

namespace PocketCalculator

open Lexeme Notation

namespace Token

/-- The first fault stops the reading. -/
theorem ofLexemes_of_fault {a rest : List Lexeme} {l : Lexeme} {fault : SyntaxFault}
    (hstar : mark '*' ∉ a) (ha : ∀ x ∈ a, ∃ t, ofLexeme x = .ok t)
    (hl : ofLexeme l = .error fault) : ofLexemes (a ++ l :: rest) = .error fault := by
  induction a with
  | nil =>
    rw [List.nil_append, ofLexemes]
    · simp only [hl]
    · rintro more rfl -
      cases hl
  | cons x a ih =>
    obtain ⟨t, ht⟩ := ha x List.mem_cons_self
    have hrest : ofLexemes (a ++ l :: rest) = .error fault :=
      ih (fun h => hstar (List.mem_cons_of_mem x h)) fun y hy => ha y (List.mem_cons_of_mem x hy)
    rw [List.cons_append, ofLexemes]
    · cases t <;> simp only [ht, hrest, Except.map]
    · rintro more rfl -
      exact hstar List.mem_cons_self

end Token

namespace Notation

/-! ## Numerals -/

/-- A numeral, perhaps behind a minus. -/
def signedRow (negative : Bool) (n : Figures) : List Piece :=
  if negative then [.minus, .numeral n] else [.numeral n]

/-- The text of a minus. -/
def minusText (negative : Bool) : Text := if negative then ['-'] else []

theorem render_signedRow (σ : Stage) (negative : Bool) (n : Figures) :
    render (rowLexemes σ (signedRow negative n)) = minusText negative ++ n.text := by
  cases negative <;> simp [signedRow, minusText, Stage.lexemes, render_numeral, Lexeme.text]

theorem flows_signedRow (negative : Bool) (n : Figures) :
    Flows .nothing (signedRow negative n) := by
  cases negative with
  | false => exact ⟨.number, rfl, .inl rfl⟩
  | true => exact ⟨.sign, rfl, .number, rfl, .inl rfl⟩

/-- What a signed numeral stands for. -/
def signedNumeral (negative : Bool) (n : Figures) : Expression :=
  if negative then .neg (.number n.value) else .number n.value

theorem ofTokens_signedRow (negative : Bool) (n : Figures) :
    Postfix.ofTokens ((signedRow negative n).flatMap Piece.tokens) =
      .ok (signedNumeral negative n).items := by
  cases negative <;> rfl

/-- A numeral is read as its value, and a minus turns the sign of the value. -/
theorem compute_signed (lib : Elementary) (negative : Bool) (n : Figures) :
    compute lib (minusText negative ++ n.text) =
      judge (if negative then -n.value else n.value) := by
  have hread : Token.read (minusText negative ++ n.text) =
      .ok ((signedRow negative n).flatMap Piece.tokens) := by
    rw [← render_signedRow .canonical]
    exact read_pieces (flows_signedRow negative n)
  have hpass := ofTokens_signedRow negative n
  rw [compute_eq_evaluate lib (normalize_of_read hread hpass),
    evaluate_eq_judge lib _ (Postfix.ofText_eq_ok hread hpass)]
  cases negative <;> rfl

/-! ## Numerals with an exponent -/

/-- The lexemes of a signed numeral with an exponent. -/
def scientificLexemes (σ : Stage) (negative : Bool) (n : Figures) (sign : Char)
    (power : DigitRun) : List Lexeme :=
  rowLexemes σ (signedRow negative n) ++ [word ['e'], mark sign, number power.text]

variable {negative : Bool} {n : Figures} {sign : Char} {power : DigitRun}

theorem render_scientificLexemes (σ : Stage) :
    render (scientificLexemes σ negative n sign power) =
      minusText negative ++ (n.text ++ 'e' :: sign :: power.text) := by
  simp [scientificLexemes, render_signedRow, Lexeme.text]

theorem cut_scientificLexemes (σ : Stage) (hsign : sign = '-' ∨ sign = '+') :
    Cut σ.figure (scientificLexemes σ negative n sign power) := by
  have hmark : (mark sign).Proper σ.figure := by
    obtain rfl | rfl := hsign <;> exact proper_mark σ (by decide)
  have hword : (word ['e']).Proper σ.figure := proper_word σ (by decide)
  have hexponent : Cut σ.figure [word ['e'], mark sign, number power.text] :=
    ⟨hword, by simp, hmark, by simp, proper_digits σ power, by simp, trivial⟩
  have hnumeral : Cut σ.figure (σ.numeral n ++ [word ['e'], mark sign, number power.text]) := by
    refine (cut_numeral σ n).append hexponent ?_
    intro x hx y hy
    obtain ⟨figures, rfl⟩ := getLast?_numeral σ n x hx
    obtain rfl : word ['e'] = y := Option.some.inj hy
    simp
  cases negative with
  | false => simpa [scientificLexemes, signedRow, Stage.lexemes] using hnumeral
  | true =>
    have hminus : (mark '-').Proper σ.figure := proper_mark σ (by decide)
    simpa [scientificLexemes, signedRow, Stage.lexemes] using cut_mark_cons.mpr ⟨hminus, hnumeral⟩

/-- No step of the normalization finds anything to do. -/
theorem canonical_scientificLexemes (hsign : sign = '-' ∨ sign = '+') :
    canonical (scientificLexemes .rooted negative n sign power) =
      scientificLexemes .rooted negative n sign power := by
  obtain ⟨whole, _ | fraction⟩ := n <;> cases negative <;> obtain rfl | rfl := hsign <;> rfl

theorem rootSign_notMem_scientific (hsign : sign = '-' ∨ sign = '+') :
    mark rootSign ∉ scientificLexemes .rooted negative n sign power := by
  obtain ⟨whole, _ | fraction⟩ := n <;> cases negative <;> obtain rfl | rfl := hsign <;>
    simp [scientificLexemes, signedRow, Stage.lexemes, Stage.numeral, Stage.rooted, rootSign]

/-- The letter is the first fault of the text. -/
theorem ofLexemes_scientificLexemes :
    Token.ofLexemes (scientificLexemes .read negative n sign power) =
      .error (.unknownName ['e']) := by
  have hword : Token.ofLexeme (word ['e']) = .error (.unknownName ['e']) := rfl
  refine Token.ofLexemes_of_fault ?_ ?_ hword
  · cases negative <;> simp [signedRow, Stage.lexemes, Stage.numeral, Stage.read]
  · intro l hl
    have hmem : l = mark '-' ∨ l = number n.text := by
      cases negative <;> simp_all [signedRow, Stage.lexemes, Stage.numeral, Stage.read]
    obtain rfl | rfl := hmem
    · exact ⟨_, rfl⟩
    · exact ⟨_, ofLexeme_figures n⟩

/-- A numeral with an exponent is refused, because its letter is no function. -/
theorem compute_scientific (hsign : sign = '-' ∨ sign = '+') (lib : Elementary) :
    compute lib (minusText negative ++ (n.text ++ 'e' :: sign :: power.text)) =
      .error (.malformed (.unknownName ['e'])) := by
  let ls := scientificLexemes .rooted negative n sign power
  have hcut : Cut Char.isDigit ls := cut_scientificLexemes .rooted hsign
  have hroot : rootSign ∉ render ls := by
    intro hmem
    exact rootSign_notMem_scientific hsign (hcut.mark_mem hmem (by decide) (by decide))
  have hblank : (render ls).all isBlank = false := by
    rw [render_scientificLexemes]
    exact List.all_eq_false.mpr ⟨'e', by simp, by decide⟩
  have hnormal : normalize (render ls) = .ok (render ls) := by
    refine normalize_eq_ok_iff.mpr ⟨hblank, _, expandRoots_of_notMem hroot, ?_⟩
    rw [split_render hcut, canonical_scientificLexemes hsign]
  have hread : Token.read (render ls) = .error (.unknownName ['e']) := by
    have hcutFigures : Cut Token.isFigure (scientificLexemes .read negative n sign power) :=
      cut_scientificLexemes .read hsign
    rw [render_scientificLexemes, ← render_scientificLexemes .read, Token.read,
      split_render hcutFigures, ofLexemes_scientificLexemes]
  rw [← render_scientificLexemes .rooted, compute_eq_evaluate lib hnormal, evaluate, Postfix.ofText,
    hread]
  rfl

end Notation

/-! ## Shown numbers -/

namespace Display

open Magnitude

variable {v : Float}

/-- The text of a finite number is a minus, perhaps, and the text of its shortest decimal. -/
theorem write_of_isFinite {zero : Text} {finite : Decimal → Text} (hfinite : v.isFinite = true)
    (hzero : ofFloat v ≠ 0) :
    write zero finite v =
      minusText (isNegative v) ++ finite (Decimal.shortest (ofFloat v)) := by
  have hk : ofFloat v < overflow := isFinite_iff.mp hfinite
  simp only [write]
  rw [if_neg hk.asymm, if_neg hzero, if_neg hk.ne]
  rfl

/-- Without an exponent a number is read as itself. -/
theorem compute_positional (lib : Elementary) (hfinite : v.isFinite = true)
    (hzero : ofFloat v ≠ 0) : compute lib (positional v) = .ok v := by
  have hk : ofFloat v < overflow := isFinite_iff.mp hfinite
  obtain ⟨n, htext, hvalue⟩ := Decimal.exists_positional (Decimal.shortest (ofFloat v))
  rw [Decimal.toFloat_aligned_shortest (Nat.pos_of_ne_zero hzero) hk] at hvalue
  rw [positional, write_of_isFinite hfinite hzero, ← htext, compute_signed, hvalue,
    signed_toFloat hfinite, judge_of_isFinite hfinite]

theorem compute_zero (lib : Elementary) : compute lib ['0'] = .ok 0 := by
  have hvalue : (Figures.ofDigits ['0'] (by decide)).value = 0 := by decide +kernel
  have hread := compute_signed lib false (.ofDigits ['0'] (by decide))
  rw [hvalue, if_neg (by decide), judge_of_isFinite (by decide +kernel)] at hread
  exact hread

/-- With an exponent a number is refused. -/
theorem compute_exponential (lib : Elementary) (hfinite : v.isFinite = true)
    (hzero : ofFloat v ≠ 0) :
    compute lib (write ['0'] Decimal.scientific v) = .error (.malformed (.unknownName ['e'])) := by
  obtain ⟨n, sign, power, hsign, htext, -⟩ :=
    Decimal.exists_scientific (Decimal.shortest (ofFloat v))
  rw [write_of_isFinite hfinite hzero, htext, compute_scientific hsign]

/-- Whether a number is shown without an exponent. -/
def isPlain (v : Float) : Bool := v == 0 || (smallest ≤ v.abs && v.abs < largest)

/-- What a shown number is read as: there is only one zero. -/
def reread (v : Float) : Float := if v == 0 then 0 else v

theorem reread_beq (hfinite : v.isFinite = true) : (reread v == v) = true := by
  have hself : (v == v) = true := by
    rw [Float.beq_self_iff]
    rintro rfl
    exact absurd hfinite (by decide +kernel)
  unfold reread
  split
  case isTrue hzero =>
    rw [Float.beq_iff_ne_nan_and_eq] at hzero ⊢
    tauto
  case isFalse => exact hself

theorem result_reread (v : Float) : result (reread v) = result v := by
  cases hzero : v == 0 with
  | false => simp only [reread, hzero, Bool.false_eq_true, if_false]
  | true =>
    have hshown : result 0 = ['0'] := by decide +kernel
    simp only [reread, hzero, if_true, hshown]
    rw [result, if_pos hzero]

/-- A shown number is read as itself, or refused if it is shown with an exponent. -/
theorem compute_result (lib : Elementary) (hfinite : v.isFinite = true) :
    compute lib (result v) =
      if isPlain v then .ok (reread v) else .error (.malformed (.unknownName ['e'])) := by
  unfold result reread isPlain
  cases hzero : v == 0 with
  | true =>
    simpa using compute_zero lib
  | false =>
    have hmagnitude : ofFloat v ≠ 0 := ofFloat_ne_zero hzero
    cases hplain : smallest ≤ v.abs && v.abs < largest with
    | true => exact compute_positional lib hfinite hmagnitude
    | false => exact compute_exponential lib hfinite hmagnitude

end Display

end PocketCalculator
