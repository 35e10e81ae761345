import PocketCalculator.Notation.Canonical
import PocketCalculator.Proofs.Settled
import PocketCalculator.Proofs.Typed.Pieces

/-!
# The steps on pieces

Each step of `Notation.canonical` leads a row that flows from one stage to the next:
`insertProducts_lexemes`, `expandPowers_lexemes`, `expandFactorials_lexemes` and
`qualify_lexemes`, all together `canonical_lexemes`.  In the last stage every piece is
read as its tokens (`ofLexemes_lexemes`).
-/

namespace PocketCalculator.Notation

open Lexeme

/-! ## Products -/

theorem startsFactor_opening (o : Opening) (rest : List Lexeme) :
    startsFactor (Stage.rooted.lexemes (.opening o) ++ rest) = true := by
  have hends : wordEnds (mark '(' :: rest) = true := by
    rw [wordEnds, isWordChar_mark '(' (by decide)]
    rfl
  cases o with
  | group => rfl
  | call f =>
    have hname : f.text ∈ functionNames := by cases f <;> decide
    show startsFunction (word f.text :: mark '(' :: rest) = true
    exact startsFunction_iff.mpr (.inl ⟨f.text, _, rfl, hname, hends⟩)
  | root =>
    show startsFunction (word Function.qualifier :: mark '.' :: word Function.sqrt.name ::
      mark '(' :: rest) = true
    exact startsFunction_iff.mpr (.inr ⟨Function.sqrt.name, _, rfl, by decide, hends⟩)

theorem startsNumber_figures (n : Figures) (rest : List Lexeme) :
    startsNumber (Stage.rooted.lexemes (.numeral n) ++ rest) = true ∧
      startsNumber (Stage.rooted.lexemes (.factorial n) ++ rest) = true := by
  obtain ⟨whole, _ | fraction⟩ := n <;> exact ⟨rfl, rfl⟩

/-- The last lexeme of an operand is multiplied exactly where the row says so. -/
theorem Flows.multiplies {s : Before} {ps : List Piece} (h : Flows s ps) {l : Lexeme}
    (hl : (s = .number ∧ ∃ figures, l = number figures) ∨
      s = .operand ∧ (l = mark ')' ∨ l = mark '!')) :
    Notation.multiplies l (rowLexemes .rooted ps) = startsTouch ps := by
  have hoperand : s.hasOperand = true := by
    rcases hl with ⟨rfl, -⟩ | ⟨rfl, -⟩ <;> rfl
  rcases h.behind_operand hoperand .rooted with
    rfl | ⟨hnone, c, rest, hrow, hc⟩ | ⟨rest, rfl, hrest⟩
  · rcases hl with ⟨-, _, rfl⟩ | ⟨-, rfl | rfl⟩ <;> rfl
  · rw [hrow, hnone]
    exact multiplies_mark (by simp_all) l rest
  · have hfactor : startsFactor (rowLexemes .rooted rest) = true ∨
        s = .operand ∧ startsNumber (rowLexemes .rooted rest) = true := by
      rcases hrest with ⟨rfl, hrest⟩ | ⟨rfl, hrest⟩
      · rcases hrest.behind_touch (.inl rfl) with ⟨o, behind, rfl⟩ | ⟨hs, -⟩
        · exact .inl (startsFactor_opening o _)
        · cases hs
      · rcases hrest.behind_touch (.inr rfl) with ⟨o, behind, rfl⟩ | ⟨-, n, behind, rfl | rfl⟩
        · exact .inl (startsFactor_opening o _)
        · exact .inr ⟨rfl, (startsNumber_figures n _).1⟩
        · exact .inr ⟨rfl, (startsNumber_figures n _).2⟩
    show Notation.multiplies l (rowLexemes .rooted rest) = true
    rcases hl with ⟨rfl, figures, rfl⟩ | ⟨rfl, hl⟩
    · exact hfactor.resolve_right (by simp)
    · have hany : startsFactor (rowLexemes .rooted rest) = true ∨
          startsNumber (rowLexemes .rooted rest) = true := hfactor.imp_right And.right
      rcases hl with rfl | rfl <;> exact Bool.or_eq_true_iff.mpr hany

/-- A lexeme that is multiplied where the row says so gets its star there. -/
theorem insertProducts_last {l : Lexeme} {ps : List Piece}
    (hl : Notation.multiplies l (rowLexemes .rooted ps) = startsTouch ps)
    (ih : insertProducts (rowLexemes .rooted ps) = rowLexemes .multiplied (dropTouch ps)) :
    insertProducts (l :: rowLexemes .rooted ps) = l :: rowLexemes .multiplied ps := by
  rw [insertProducts, hl, ih]
  unfold startsTouch dropTouch
  split <;> simp_all [Stage.lexemes, Stage.multiplied]

/-- Behind anything but an operand no product goes without a sign. -/
theorem Flows.startsTouch_eq_false {s : Before} {ps : List Piece} (h : Flows s ps)
    (hs : s ≠ .number ∧ s ≠ .operand) : startsTouch ps = false := by
  cases ps with
  | nil => rfl
  | cons p ps =>
    obtain ⟨s', hstep, -⟩ := h
    cases p <;> first | rfl | (cases s <;> simp_all [Before.step])

theorem dropTouch_of_startsTouch {ps : List Piece} (h : startsTouch ps = false) :
    dropTouch ps = ps := by
  unfold dropTouch
  split
  · cases h
  · rfl

/-- A numeral is not multiplied by the factorial sign behind it. -/
theorem insertProducts_numeral (n : Figures) (rest : List Lexeme) :
    insertProducts (Stage.rooted.numeral n ++ mark '!' :: rest) =
      Stage.rooted.numeral n ++ insertProducts (mark '!' :: rest) := by
  obtain ⟨whole, _ | fraction⟩ := n <;> rfl

/-- The stars are written where a product has no sign. -/
theorem insertProducts_lexemes {s : Before} {ps : List Piece} (h : Flows s ps) :
    insertProducts (rowLexemes .rooted ps) = rowLexemes .multiplied (dropTouch ps) := by
  -- The star of a product is written with the lexeme in front of it.  At the front of a
  -- row that lexeme is not there, so a product that the row begins with is dropped.
  induction ps generalizing s with
  | nil => rfl
  | cons p ps ih =>
    obtain ⟨s', hstep, hps⟩ := h
    have hlast {l : Lexeme} (hl : Notation.multiplies l (rowLexemes .rooted ps) = startsTouch ps) :
        insertProducts (l :: rowLexemes .rooted ps) = l :: rowLexemes .multiplied ps :=
      insertProducts_last hl (ih hps)
    have hmark {c : Char} (hclosing : c ≠ ')') (hbang : c ≠ '!')
        (hs : s' ≠ .number ∧ s' ≠ .operand) :
        insertProducts (mark c :: rowLexemes .rooted ps) =
          mark c :: rowLexemes .multiplied ps := by
      apply hlast
      rw [multiplies_of_mark_ne hclosing hbang, hps.startsTouch_eq_false hs]
    cases p with
    | blank c =>
      have hs : s' ≠ .number ∧ s' ≠ .operand := by
        rcases (Before.step_blank hstep).2 with rfl | rfl <;> decide
      exact hmark (blank_ne c (by decide)) (blank_ne c (by decide)) hs
    | minus =>
      obtain ⟨-, rfl⟩ := Before.step_minus hstep
      exact hmark (by decide) (by decide) (by decide)
    | numeral n =>
      obtain ⟨-, rfl⟩ := Before.step_numeral hstep
      have hnumber (figures : Text) : insertProducts (number figures :: rowLexemes .rooted ps) =
          number figures :: rowLexemes .multiplied ps :=
        hlast (hps.multiplies (.inl ⟨rfl, figures, rfl⟩))
      obtain ⟨whole, _ | fraction⟩ := n
      · exact hnumber whole.text
      · show insertProducts (number whole.text :: mark '.' :: number fraction.text ::
          rowLexemes .rooted ps) = _
        rw [insertProducts_of_not rfl, insertProducts_of_not rfl, hnumber]
        rfl
    | factorial n =>
      obtain ⟨-, -, rfl⟩ := Before.step_factorial hstep
      have hbang := hlast (hps.multiplies (.inr ⟨rfl, .inr rfl⟩))
      rw [rowLexemes_cons, lexemes_factorial rfl, insertProducts_numeral, hbang]
      exact (lexemes_factorial rfl n _).symm
    | negated n =>
      obtain ⟨-, rfl⟩ := Before.step_negated hstep
      have hbang := hlast (hps.multiplies (.inr ⟨rfl, .inr rfl⟩))
      rw [rowLexemes_cons, lexemes_negated rfl, insertProducts_of_not rfl, insertProducts_numeral,
        hbang]
      exact (lexemes_negated rfl n _).symm
    | opening o =>
      obtain ⟨-, rfl⟩ := Before.step_opening hstep
      have hopening := hmark (show '(' ≠ ')' by decide) (by decide) (by decide)
      cases o with
      | group => exact hopening
      | call f =>
        show insertProducts (word f.text :: mark '(' :: rowLexemes .rooted ps) = _
        rw [insertProducts_of_not rfl, hopening]
        rfl
      | root =>
        show insertProducts (word Function.qualifier :: mark '.' :: word Function.sqrt.name ::
          mark '(' :: rowLexemes .rooted ps) = _
        rw [insertProducts_of_not rfl, insertProducts_of_not rfl, insertProducts_of_not rfl,
          hopening]
        rfl
    | closing =>
      obtain ⟨-, rfl⟩ := Before.step_closing hstep
      exact hlast (hps.multiplies (.inr ⟨rfl, .inl rfl⟩))
    | operator o =>
      obtain ⟨-, rfl⟩ := Before.step_operator hstep
      cases o <;> exact hmark (by decide) (by decide) (by decide)
    | touch =>
      have hs : s' ≠ .number ∧ s' ≠ .operand := by
        rcases Before.step_touch hstep with ⟨-, rfl⟩ | ⟨-, rfl⟩ <;> decide
      show insertProducts (rowLexemes .rooted ps) = rowLexemes .multiplied ps
      rw [ih hps, dropTouch_of_startsTouch (hps.startsTouch_eq_false hs)]

/-! ## Factorials -/

/-- The numeral of a number is no factorial. -/
theorem Flows.startsFactorial_number {ps : List Piece} (h : Flows .number ps) (n : Figures) :
    startsFactorial (Stage.powered.numeral n ++ rowLexemes .powered ps) = false ∧
      ∀ figures, startsFactorial (number figures :: rowLexemes .powered ps) = false := by
  have hbehind : ∀ rest, rowLexemes .powered ps ≠ mark '!' :: rest ∧
      rowLexemes .powered ps ≠ mark '.' :: rest := by
    intro rest
    rcases h.behind_operand rfl .powered with rfl | ⟨-, c, _, hrow, hc⟩ | ⟨_, rfl, -⟩
    · simp
    · simp_all
    · simp [Stage.lexemes, Stage.powered, Stage.multiplied]
  have hnumber (figures : Text) :
      startsFactorial (number figures :: rowLexemes .powered ps) = false :=
    startsFactorial_eq_false (fun _ _ hrow => (hbehind _).1 (List.cons.inj hrow).2)
      fun _ _ _ hrow => (hbehind _).2 (List.cons.inj hrow).2
  refine ⟨?_, hnumber⟩
  obtain ⟨whole, _ | fraction⟩ := n
  · exact hnumber whole.text
  · show startsFactorial (number whole.text :: mark '.' :: number fraction.text ::
      rowLexemes .powered ps) = false
    refine startsFactorial_eq_false (by simp) ?_
    intro _ _ rest hrow
    simp only [List.cons.injEq] at hrow
    exact (hbehind rest).1 hrow.2.2.2

/-- A factorial behind a minus belongs to its piece. -/
theorem Flows.startsFactorial_sign {ps : List Piece} (h : Flows .sign ps) :
    startsFactorial (rowLexemes .powered ps) = false := by
  cases ps with
  | nil => rfl
  | cons p ps =>
    obtain ⟨s', hstep, hps⟩ := h
    cases p with
    | numeral n =>
      obtain ⟨-, rfl⟩ := Before.step_numeral hstep
      exact (hps.startsFactorial_number n).1
    | minus => rfl
    | negated n =>
      rw [rowLexemes_cons, lexemes_negated rfl]
      rfl
    | opening o => cases o <;> rfl
    | blank | factorial | closing | operator | touch => cases hstep

/-- Factorials become calls, and a minus is the sign of its numeral where the row says
so. -/
theorem expandFactorials_lexemes {s : Before} {ps : List Piece} (h : Flows s ps) :
    expandFactorials s.hasOperand (rowLexemes .powered ps) = rowLexemes .expanded ps := by
  -- The flag of the step says of the text what `s` says of the pieces in front.
  induction ps generalizing s with
  | nil => rfl
  | cons p ps ih =>
    obtain ⟨s', hstep, hps⟩ := h
    have hrest := ih hps
    have hmark {c : Char} (hc : c ≠ '-')
        (hoperand : operandBefore s.hasOperand (mark c) = s'.hasOperand) :
        expandFactorials s.hasOperand (mark c :: rowLexemes .powered ps) =
          mark c :: rowLexemes .expanded ps := by
      rw [expandFactorials_mark hc, hoperand, hrest]
    cases p with
    | blank c =>
      apply hmark (blank_ne c (by decide))
      rw [operandBefore, if_pos c.property, (Before.step_blank hstep).1]
    | minus =>
      -- A factorial behind the minus would be one piece with it.
      obtain ⟨hs, rfl⟩ := Before.step_minus hstep
      show expandFactorials s.hasOperand (mark '-' :: rowLexemes .powered ps) = _
      rw [expandFactorials_of_not rfl (fun _ => hps.startsFactorial_sign)]
      exact congrArg (mark '-' :: ·) hrest
    | numeral n =>
      obtain ⟨hs, rfl⟩ := Before.step_numeral hstep
      have hstart := hps.startsFactorial_number n
      obtain ⟨whole, _ | fraction⟩ := n
      · show expandFactorials s.hasOperand (number whole.text :: rowLexemes .powered ps) = _
        rw [expandFactorials_number (hstart.2 _)]
        exact congrArg (number whole.text :: ·) hrest
      · have hwhole : startsFactorial (number whole.text :: mark '.' :: number fraction.text ::
            rowLexemes .powered ps) = false := hstart.1
        show expandFactorials s.hasOperand (number whole.text :: mark '.' ::
          number fraction.text :: rowLexemes .powered ps) = _
        rw [expandFactorials_number hwhole, expandFactorials_mark (by decide),
          expandFactorials_number (hstart.2 _)]
        exact congrArg (number whole.text :: mark '.' :: number fraction.text :: ·) hrest
    | factorial n =>
      obtain ⟨-, -, rfl⟩ := Before.step_factorial hstep
      have hcall : expandFactorials s.hasOperand
          (Stage.powered.numeral n ++ mark '!' :: rowLexemes .powered ps) =
          factorialCall (Stage.powered.numeral n)
            (expandFactorials true (rowLexemes .powered ps)) := by
        obtain ⟨whole, _ | fraction⟩ := n <;> rfl
      rw [rowLexemes_cons, lexemes_factorial rfl, hcall]
      refine (congrArg (factorialCall _) hrest).trans ?_
      exact (factorialCall_append (Stage.powered.numeral n) [] _).symm
    | negated n =>
      obtain ⟨hs, rfl⟩ := Before.step_negated hstep
      have hcall : expandFactorials false
          (mark '-' :: (Stage.powered.numeral n ++ mark '!' :: rowLexemes .powered ps)) =
          factorialCall (mark '-' :: Stage.powered.numeral n)
            (expandFactorials true (rowLexemes .powered ps)) := by
        obtain ⟨whole, _ | fraction⟩ := n <;> rfl
      rw [rowLexemes_cons, lexemes_negated rfl, hs, hcall]
      refine (congrArg (factorialCall _) hrest).trans ?_
      exact (factorialCall_append (mark '-' :: Stage.powered.numeral n) [] _).symm
    | opening o =>
      obtain ⟨-, rfl⟩ := Before.step_opening hstep
      have hopening (before : Bool) : expandFactorials before (mark '(' :: rowLexemes .powered ps) =
          mark '(' :: rowLexemes .expanded ps := by
        rw [expandFactorials_mark (by decide)]
        exact congrArg (mark '(' :: ·) hrest
      cases o with
      | group => exact hopening _
      | call f =>
        show expandFactorials s.hasOperand (word f.text :: mark '(' :: rowLexemes .powered ps) = _
        rw [expandFactorials_word_mark (by decide), hopening]
        rfl
      | root =>
        show expandFactorials s.hasOperand (word Function.qualifier :: mark '.' ::
          word Function.sqrt.name :: mark '(' :: rowLexemes .powered ps) = _
        rw [expandFactorials_word_mark (by decide), expandFactorials_mark (by decide),
          expandFactorials_word_mark (by decide), hopening]
        rfl
    | closing =>
      obtain ⟨-, rfl⟩ := Before.step_closing hstep
      exact hmark (by decide) rfl
    | operator o =>
      obtain ⟨hs, rfl⟩ := Before.step_operator hstep
      cases o with
      | sub => exact (expandFactorials_minus hs _).trans (congrArg (mark '-' :: ·) hrest)
      | add | mul | div => exact hmark (by decide) rfl
      | pow =>
        show expandFactorials s.hasOperand (mark '*' :: mark '*' :: rowLexemes .powered ps) = _
        rw [expandFactorials_mark (by decide), expandFactorials_mark (by decide)]
        exact congrArg (mark '*' :: mark '*' :: ·) hrest
    | touch =>
      refine hmark (c := '*') (by decide) ?_
      rcases Before.step_touch hstep with ⟨-, rfl⟩ | ⟨-, rfl⟩ <;> rfl

/-! ## Powers and names -/

theorem qualify_append (p : Piece) (rest : List Lexeme) :
    qualify (Stage.expanded.lexemes p ++ rest) = Stage.canonical.lexemes p ++ qualify rest := by
  cases p with
  | blank | minus | closing | touch => rfl
  | numeral n | factorial n | negated n => obtain ⟨w, _ | f⟩ := n <;> rfl
  | operator o => cases o <;> rfl
  | opening o =>
    cases o with
    | group | root => rfl
    | call f => cases f <;> rfl

theorem qualify_lexemes (ps : List Piece) :
    qualify (rowLexemes .expanded ps) = rowLexemes .canonical ps := by
  induction ps with
  | nil => rfl
  | cons p ps ih => rw [rowLexemes_cons, qualify_append, ih, rowLexemes_cons]

theorem expandPowers_append (p : Piece) (rest : List Lexeme) :
    expandPowers (Stage.multiplied.lexemes p ++ rest) =
      Stage.powered.lexemes p ++ expandPowers rest := by
  cases p with
  | blank c =>
    have hc : mark c.val ≠ mark '^' := by simp [blank_ne c (d := '^') (by decide)]
    exact expandPowers_cons hc rest
  | minus | closing | touch => rfl
  | numeral n | factorial n | negated n => obtain ⟨w, _ | f⟩ := n <;> rfl
  | operator o => cases o <;> rfl
  | opening o =>
    cases o with
    | group | root => rfl
    | call f => cases f <;> rfl

theorem expandPowers_lexemes (ps : List Piece) :
    expandPowers (rowLexemes .multiplied ps) = rowLexemes .powered ps := by
  induction ps with
  | nil => rfl
  | cons p ps ih => rw [rowLexemes_cons, expandPowers_append, ih, rowLexemes_cons]

/-- All steps together. -/
theorem canonical_lexemes {ps : List Piece} (h : Flows .nothing ps) :
    canonical (rowLexemes .rooted ps) = rowLexemes .canonical ps := by
  have hfactorials := expandFactorials_lexemes h
  rw [canonical, insertProducts_lexemes h,
    dropTouch_of_startsTouch (h.startsTouch_eq_false (by decide)), expandPowers_lexemes]
  exact (congrArg qualify hfactorials).trans (qualify_lexemes ps)

/-! ## Reading tokens -/

/-- The tokens of a piece. -/
def Piece.tokens : Piece → List Token
  | blank _ => []
  | minus => [.operator .sub]
  | numeral n => [.number n.value]
  | factorial n => [.function .factorial, .opening, .number n.value, .closing]
  | negated n => [.function .factorial, .opening, .operator .sub, .number n.value, .closing]
  | opening .group => [.opening]
  | opening (.call f) => [.function f.function, .opening]
  | opening .root => [.function .sqrt, .opening]
  | closing => [.closing]
  | operator o => [.operator o]
  | touch => [.operator .mul]

/-- The lexemes of a numeral make up its text in every stage. -/
theorem render_numeral (σ : Stage) (n : Figures) : render (σ.numeral n) = n.text := by
  unfold Stage.numeral
  split
  · simp [Lexeme.text]
  · obtain ⟨whole, _ | fraction⟩ := n <;> simp [Lexeme.text, Figures.text]

/-- Reading cuts the same text into other lexemes. -/
theorem render_lexemes (p : Piece) :
    render (Stage.canonical.lexemes p) = render (Stage.read.lexemes p) := by
  cases p with
  | blank | minus | closing | touch => rfl
  | numeral n => exact (render_numeral _ n).trans (render_numeral _ n).symm
  | factorial n | negated n =>
    simp only [Stage.lexemes, Stage.canonical, Stage.expanded, Stage.read, if_true, factorialCall,
      render_cons, render_append, List.cons_append, render_numeral]
  | opening o =>
    cases o with
    | group | root => rfl
    | call f => cases f <;> rfl
  | operator o => cases o <;> rfl

theorem render_rowLexemes (ps : List Piece) :
    render (rowLexemes .canonical ps) = render (rowLexemes .read ps) := by
  induction ps with
  | nil => rfl
  | cons p ps ih =>
    rw [rowLexemes_cons, rowLexemes_cons, render_append, render_append, render_lexemes, ih]

/-- Behind a numeral, unless it goes on, an exponent is read. -/
theorem decimal?_append (n : Figures) {rest : Text}
    (h : ∀ c ∈ rest.head?, c.isDigit = false ∧ c ≠ '.') :
    Numeral.decimal? (n.text ++ rest) = (Numeral.exponent? rest).map n.scaled := by
  have hnoDigit : ∀ c ∈ rest.head?, c.isDigit = false := fun c hc => (h c hc).1
  show _ = (Numeral.exponent? rest).map fun e =>
    Decimal.mk (Numeral.value (n.whole.text ++ n.decimals)) (e - n.decimals.length)
  obtain ⟨whole, _ | fraction⟩ := n
  · have hfront := whole.takeWhile_append rest hnoDigit
    have hbehind := whole.dropWhile_append rest hnoDigit
    simp only [Numeral.decimal?, Figures.text, Figures.decimals, hfront, hbehind]
    cases rest with
    | nil => simp [whole.ne_nil]
    | cons c rest =>
      have hnoPoint : c ≠ '.' := (h c rfl).2
      simp [whole.ne_nil, hnoPoint]
  · have hfront := whole.takeWhile_append ('.' :: (fraction.text ++ rest)) (by simp)
    have hbehind := whole.dropWhile_append ('.' :: (fraction.text ++ rest)) (by simp)
    have hfront' := fraction.takeWhile_append rest hnoDigit
    have hbehind' := fraction.dropWhile_append rest hnoDigit
    simp [Numeral.decimal?, Figures.text, Figures.decimals, hfront, hbehind, hfront', hbehind',
      whole.ne_nil]

theorem decimal?_text (n : Figures) :
    (Numeral.decimal? n.text).map Decimal.toFloat = some n.value := by
  have hread : Numeral.decimal? (n.text ++ []) = _ := decimal?_append n (by simp)
  rw [List.append_nil] at hread
  simp [hread, Numeral.exponent?, Figures.scaled, Figures.value]

theorem ofLexemes_cons {l : Lexeme} {t : Option Token} {rest : List Lexeme} {ts : List Token}
    (hl : Token.ofLexeme l = .ok t) (hstar : l = mark '*' → ∀ more, rest ≠ mark '*' :: more)
    (hrest : Token.ofLexemes rest = .ok ts) :
    Token.ofLexemes (l :: rest) = .ok (t.toList ++ ts) := by
  unfold Token.ofLexemes
  split
  · rename_i h
    cases h
  · rename_i h
    obtain ⟨rfl, rfl⟩ := List.cons.inj h
    exact absurd rfl (hstar rfl _)
  · rename_i h
    obtain ⟨rfl, rfl⟩ := List.cons.inj h
    cases t <;> simp [hl, hrest, Except.map]

/-- Behind an operator there is no star. -/
theorem Flows.ne_star {s : Before} {ps : List Piece} (h : Flows s ps)
    (hs : s.hasOperand = false) (rest : List Lexeme) : rowLexemes .read ps ≠ mark '*' :: rest := by
  cases ps with
  | nil => simp
  | cons p ps =>
    obtain ⟨s', hstep, -⟩ := h
    cases p with
    | blank c =>
      intro hrow
      exact blank_ne c (by decide) (mark.inj (List.cons.inj hrow).1)
    | minus | numeral | factorial | negated =>
      simp [Stage.lexemes, Stage.numeral, factorialCall, Stage.read, Stage.canonical,
        Stage.expanded]
    | opening o => cases o <;> simp [Stage.lexemes, Stage.name, Stage.read, Stage.canonical]
    | closing => simp [Before.step_closing hstep] at hs
    | operator o => simp [Before.step_operator hstep] at hs
    | touch => rcases Before.step_touch hstep with ⟨rfl, -⟩ | ⟨rfl, -⟩ <;> cases hs

theorem ofLexeme_figures (n : Figures) :
    Token.ofLexeme (number n.text) = .ok (some (.number n.value)) := by
  obtain ⟨d, hd, hvalue⟩ := Option.map_eq_some_iff.mp (decimal?_text n)
  simp [Token.ofLexeme, hd, hvalue]

theorem ofLexeme_function (f : Function) :
    Token.ofLexeme (word f.text) = .ok (some (.function f)) := by
  simp [Token.ofLexeme, Function.ofText?_text]

/-- The name and the parenthesis of a factorial are read in front of its numeral. -/
theorem ofLexemes_factorialCall (numeral : List Lexeme) {rest : List Lexeme} {ts : List Token}
    (h : Token.ofLexemes (numeral ++ mark ')' :: rest) = .ok ts) :
    Token.ofLexemes (factorialCall numeral rest) =
      .ok (.function .factorial :: .opening :: ts) := by
  have hopening := ofLexemes_cons (l := mark '(') (t := some .opening) rfl (by simp) h
  exact ofLexemes_cons (ofLexeme_function .factorial) (by simp) hopening

/-- Every piece is read as its tokens. -/
theorem ofLexemes_lexemes {s : Before} {ps : List Piece} (h : Flows s ps) :
    Token.ofLexemes (rowLexemes .read ps) = .ok (ps.flatMap Piece.tokens) := by
  induction ps generalizing s with
  | nil => rfl
  | cons p ps ih =>
    obtain ⟨s', hstep, hps⟩ := h
    have hrest := ih hps
    have hnumeral (n : Figures) :
        Token.ofLexemes (number n.text :: mark ')' :: rowLexemes .read ps) =
          .ok (.number n.value :: .closing :: ps.flatMap Piece.tokens) :=
      ofLexemes_cons (ofLexeme_figures n) (by simp)
        (ofLexemes_cons (l := mark ')') (t := some .closing) rfl (by simp) hrest)
    cases p with
    | blank c =>
      have hstar : mark c.val ≠ mark '*' := by simp [blank_ne c (d := '*') (by decide)]
      exact ofLexemes_cons (Token.ofLexeme_blank c.property) (fun hc => absurd hc hstar) hrest
    | minus => exact ofLexemes_cons (t := some (.operator .sub)) rfl (by simp) hrest
    | numeral n => exact ofLexemes_cons (ofLexeme_figures n) (by simp) hrest
    | factorial n => exact ofLexemes_factorialCall [number n.text] (hnumeral n)
    | negated n =>
      have hminus :=
        ofLexemes_cons (l := mark '-') (t := some (.operator .sub)) rfl (by simp) (hnumeral n)
      exact ofLexemes_factorialCall [mark '-', number n.text] hminus
    | opening o =>
      have hopening := ofLexemes_cons (l := mark '(') (t := some .opening) rfl (by simp) hrest
      cases o with
      | group => exact hopening
      | call f => exact ofLexemes_cons (ofLexeme_function f.function) (by simp) hopening
      | root => exact ofLexemes_cons (ofLexeme_function .sqrt) (by simp) hopening
    | closing => exact ofLexemes_cons (t := some .closing) rfl (by simp) hrest
    | operator o =>
      obtain ⟨-, rfl⟩ := Before.step_operator hstep
      cases o with
      | mul =>
        exact ofLexemes_cons (t := some (.operator .mul)) rfl (fun _ => hps.ne_star rfl) hrest
      | add | sub | div => exact ofLexemes_cons (t := some (.operator _)) rfl (by simp) hrest
      | pow =>
        show (Token.ofLexemes (rowLexemes .read ps)).map (Token.operator .pow :: ·) = _
        rw [hrest]
        rfl
    | touch =>
      have hs : s'.hasOperand = false := by
        rcases Before.step_touch hstep with ⟨-, rfl⟩ | ⟨-, rfl⟩ <;> rfl
      exact ofLexemes_cons (t := some (.operator .mul)) rfl (fun _ => hps.ne_star hs) hrest

end PocketCalculator.Notation
