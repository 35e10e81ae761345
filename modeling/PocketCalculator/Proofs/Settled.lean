import PocketCalculator.Engine
import PocketCalculator.Proofs.Cutting

/-!
# Settled text

Lexemes are settled when no step of `Notation.canonical` finds anything to do
in them: they stay apart, no product sign is missing, there is no power sign
and no factorial sign behind a numeral, and every called name is qualified.

The steps leave settled lexemes alone (`canonical_of_settled`).  They also lead
there (`settled_canonical`): each step settles its own matter, and the steps
after it do not bring it up again.
-/

namespace PocketCalculator.Notation

open Lexeme

/-- No lexeme is multiplied by the ones behind it. -/
def Multiplied : List Lexeme → Prop
  | [] => True
  | l :: rest => multiplies l rest = false ∧ Multiplied rest

/-- Whether the lexemes begin with a numeral and a factorial sign. -/
def startsFactorial : List Lexeme → Bool
  | number _ :: mark '!' :: _ => true
  | number _ :: mark '.' :: number _ :: mark '!' :: _ => true
  | _ => false

theorem startsFactorial_iff {ls : List Lexeme} :
    startsFactorial ls = true ↔ (∃ figures rest, ls = number figures :: mark '!' :: rest) ∨
      ∃ whole fraction rest,
        ls = number whole :: mark '.' :: number fraction :: mark '!' :: rest := by
  constructor
  · intro h
    unfold startsFactorial at h
    split at h
    · exact .inl ⟨_, _, rfl⟩
    · exact .inr ⟨_, _, _, rfl⟩
    · cases h
  · rintro (⟨_, _, rfl⟩ | ⟨_, _, _, rfl⟩) <;> rfl

theorem startsFactorial_eq_false {ls : List Lexeme}
    (hwhole : ∀ figures rest, ls ≠ number figures :: mark '!' :: rest)
    (hpoint : ∀ whole fraction rest,
      ls ≠ number whole :: mark '.' :: number fraction :: mark '!' :: rest) :
    startsFactorial ls = false := by
  rw [← Bool.not_eq_true, startsFactorial_iff]
  rintro (⟨figures, rest, h⟩ | ⟨whole, fraction, rest, h⟩)
  · exact hwhole figures rest h
  · exact hpoint whole fraction rest h

theorem startsFactorial_cons_eq_false {l : Lexeme} {rest : List Lexeme}
    (hwhole : ∀ figures behind, l = number figures → rest ≠ mark '!' :: behind)
    (hpoint : ∀ whole fraction behind, l = number whole →
      rest ≠ mark '.' :: number fraction :: mark '!' :: behind) :
    startsFactorial (l :: rest) = false := by
  refine startsFactorial_eq_false ?_ ?_
  · rintro figures behind ⟨⟩
    exact hwhole figures behind rfl rfl
  · rintro whole fraction behind ⟨⟩
    exact hpoint whole fraction behind rfl rfl

/-- No numeral has a factorial sign behind it. -/
def Expanded : List Lexeme → Prop
  | [] => True
  | l :: rest => startsFactorial (l :: rest) = false ∧ Expanded rest

/-! ## The steps leave settled lexemes alone -/

theorem insertProducts_of_not {l : Lexeme} {rest : List Lexeme}
    (h : multiplies l rest = false) :
    insertProducts (l :: rest) = l :: insertProducts rest := by
  simp [insertProducts, h]

theorem insertProducts_of_multiplied {ls : List Lexeme} (h : Multiplied ls) :
    insertProducts ls = ls := by
  induction ls with
  | nil => rfl
  | cons l rest ih => simp [insertProducts, h.1, ih h.2]

theorem expandPowers_of_not_mem {ls : List Lexeme} (h : mark '^' ∉ ls) :
    expandPowers ls = ls := by
  induction ls with
  | nil => rfl
  | cons l rest ih =>
    simp only [List.mem_cons, not_or] at h
    rw [expandPowers, List.flatMap_cons, ← expandPowers, ih h.2, if_neg (Ne.symm h.1)]
    rfl

theorem glue_of_apart {l : Lexeme} {rest : List Lexeme} (h : ∀ r ∈ rest.head?, l.Apart r) :
    glue l rest = l :: rest := by
  unfold glue
  split
  · exact absurd (h _ rfl) (by simp)
  · rfl

theorem expandFactorials_of_expanded {ls : List Lexeme} (hcut : Cut Char.isDigit ls)
    (h : Expanded ls) (before : Bool) : expandFactorials before ls = ls := by
  fun_induction expandFactorials before ls with
  | case1 => rfl
  | case2 | case3 => exact absurd h.1 (by simp [startsFactorial])
  | case4 | case5 => exact absurd h.2.1 (by simp [startsFactorial])
  | case6 before l rest _ _ _ _ ih => rw [ih hcut.2.2 h.2, glue_of_apart hcut.2.1]

/-- Lexemes that no step changes. -/
structure Settled (ls : List Lexeme) : Prop where
  cut : Cut Char.isDigit ls
  products : Multiplied ls
  powers : mark '^' ∉ ls
  factorials : Expanded ls
  names : qualify ls = ls

theorem canonical_of_settled {ls : List Lexeme} (h : Settled ls) : canonical ls = ls := by
  rw [canonical, insertProducts_of_multiplied h.products, expandPowers_of_not_mem h.powers,
    expandFactorials_of_expanded h.cut h.factorials, h.names]

/-! ## The steps keep lexemes apart -/

@[simp] theorem head?_insertProducts (ls : List Lexeme) :
    (insertProducts ls).head? = ls.head? := by
  cases ls with
  | nil => rfl
  | cons l rest => rw [insertProducts]; split <;> rfl

theorem cut_insertProducts {ls : List Lexeme} (h : Cut Char.isDigit ls) :
    Cut Char.isDigit (insertProducts ls) := by
  induction ls with
  | nil => trivial
  | cons l rest ih =>
    obtain ⟨hl, hnext, hrest⟩ := h
    rw [insertProducts]
    split
    · exact ⟨hl, by simp, ⟨rfl, rfl⟩, by simp, ih hrest⟩
    · exact ⟨hl, by simpa using hnext, ih hrest⟩

@[simp] theorem expandPowers_nil : expandPowers [] = [] := rfl

theorem expandPowers_power (rest : List Lexeme) :
    expandPowers (mark '^' :: rest) = mark '*' :: mark '*' :: expandPowers rest := rfl

theorem expandPowers_cons {l : Lexeme} (h : l ≠ mark '^') (rest : List Lexeme) :
    expandPowers (l :: rest) = l :: expandPowers rest := by
  rw [expandPowers, List.flatMap_cons, if_neg h]
  rfl

theorem head?_expandPowers {ls : List Lexeme} :
    ∀ r ∈ (expandPowers ls).head?, r ∈ ls.head? ∨ r = mark '*' := by
  cases ls with
  | nil => simp
  | cons l rest =>
    by_cases hl : l = mark '^'
    · simp [hl, expandPowers_power]
    · simp [expandPowers_cons hl]

theorem cut_expandPowers {ls : List Lexeme} (h : Cut Char.isDigit ls) :
    Cut Char.isDigit (expandPowers ls) := by
  induction ls with
  | nil => trivial
  | cons l rest ih =>
    obtain ⟨hl, hnext, hrest⟩ := h
    by_cases hpower : l = mark '^'
    · rw [hpower, expandPowers_power]
      exact ⟨⟨rfl, rfl⟩, by simp, ⟨rfl, rfl⟩, by simp, ih hrest⟩
    · rw [expandPowers_cons hpower]
      refine ⟨hl, ?_, ih hrest⟩
      intro r hr
      rcases head?_expandPowers r hr with hr | rfl
      · exact hnext r hr
      · simp

theorem cut_factorialCall {numeral rest : List Lexeme} (hnumeral : Cut Char.isDigit numeral)
    (hrest : Cut Char.isDigit rest) : Cut Char.isDigit (factorialCall numeral rest) := by
  have hname : (word Function.factorial.text).Proper Char.isDigit := by decide
  have hbehind : Cut Char.isDigit (numeral ++ mark ')' :: rest) :=
    hnumeral.append (cut_mark_cons.mpr ⟨⟨rfl, rfl⟩, hrest⟩) (by simp)
  exact ⟨hname, by simp, ⟨rfl, rfl⟩, by simp, hbehind⟩

theorem factorialCall_append (numeral rest more : List Lexeme) :
    factorialCall numeral rest ++ more = factorialCall numeral (rest ++ more) := by
  simp [factorialCall]

theorem cut_signedCall {before : Bool} {numeral rest : List Lexeme}
    (hnumeral : Cut Char.isDigit numeral) (hrest : Cut Char.isDigit rest) :
    Cut Char.isDigit (signedCall before numeral rest) := by
  have hminus : (mark '-').Proper Char.isDigit := ⟨rfl, rfl⟩
  unfold signedCall
  split
  · exact cut_mark_cons.mpr ⟨hminus, cut_factorialCall hnumeral hrest⟩
  · exact cut_factorialCall (cut_mark_cons.mpr ⟨hminus, hnumeral⟩) hrest

@[simp] theorem glue_number (figures : Text) (rest : List Lexeme) :
    glue (number figures) rest = number figures :: rest := rfl

@[simp] theorem glue_mark (c : Char) (rest : List Lexeme) :
    glue (mark c) rest = mark c :: rest := rfl

theorem glue_word_mark (a : Text) (c : Char) (rest : List Lexeme) :
    glue (word a) (mark c :: rest) = word a :: mark c :: rest := rfl

theorem glue_word_word (a b : Text) (rest : List Lexeme) :
    glue (word a) (word b :: rest) = word (a ++ b) :: rest := rfl

/-- A lexeme either stays in front, or it begins a factorial and a call takes its
place. -/
theorem expandFactorials_cons (before : Bool) (l : Lexeme) (rest : List Lexeme) :
    expandFactorials before (l :: rest) = glue l (expandFactorials (operandBefore before l) rest) ∨
      ((∃ figures, l = number figures) ∨ l = mark '-') ∧
        ∃ r, expandFactorials before (l :: rest) =
          word Function.factorial.text :: mark '(' :: r := by
  generalize hls : l :: rest = ls
  fun_cases expandFactorials before ls with
  | case1 => cases hls
  | case2 | case3 =>
    cases hls
    exact .inr ⟨.inl ⟨_, rfl⟩, _, rfl⟩
  | case4 | case5 =>
    cases hls
    cases before with
    | true => exact .inl rfl
    | false => exact .inr ⟨.inr rfl, _, rfl⟩
  | case6 =>
    cases hls
    exact .inl rfl

theorem expandFactorials_of_not {l : Lexeme} {rest : List Lexeme}
    (h : startsFactorial (l :: rest) = false) (hminus : l = mark '-' → startsFactorial rest = false)
    (before : Bool) :
    expandFactorials before (l :: rest) =
      glue l (expandFactorials (operandBefore before l) rest) := by
  generalize hls : l :: rest = ls at h
  fun_cases expandFactorials before ls with
  | case1 => cases hls
  | case2 | case3 => simp [startsFactorial] at h
  | case4 | case5 =>
    obtain ⟨rfl, rfl⟩ := List.cons.inj hls
    simp [startsFactorial] at hminus
  | case6 =>
    obtain ⟨rfl, rfl⟩ := List.cons.inj hls
    rfl

theorem expandFactorials_number {figures : Text} {rest : List Lexeme}
    (h : startsFactorial (number figures :: rest) = false) (before : Bool) :
    expandFactorials before (number figures :: rest) =
      number figures :: expandFactorials true rest :=
  expandFactorials_of_not h (by simp) before

theorem expandFactorials_mark {c : Char} (hc : c ≠ '-') (before : Bool) (rest : List Lexeme) :
    expandFactorials before (mark c :: rest) =
      mark c :: expandFactorials (operandBefore before (mark c)) rest :=
  expandFactorials_of_not rfl (by simp [hc]) before

theorem expandFactorials_word_mark {c : Char} (hc : c ≠ '-') (w : Text) (before : Bool)
    (rest : List Lexeme) :
    expandFactorials before (word w :: mark c :: rest) =
      word w :: expandFactorials (operandBefore before (word w)) (mark c :: rest) := by
  rw [expandFactorials_of_not rfl (by simp) before, expandFactorials_mark hc, glue_word_mark]

/-- A minus behind an operand stays in front of the call. -/
theorem expandFactorials_minus {before : Bool} (hbefore : before = true) (rest : List Lexeme) :
    expandFactorials before (mark '-' :: rest) = mark '-' :: expandFactorials false rest := by
  generalize hls : mark '-' :: rest = ls
  fun_cases expandFactorials before ls with
  | case1 => cases hls
  | case2 | case3 => cases hls
  | case4 | case5 =>
    obtain ⟨-, rfl⟩ := List.cons.inj hls
    rw [signedCall, if_pos hbefore]
    rfl
  | case6 =>
    obtain ⟨rfl, rfl⟩ := List.cons.inj hls
    rfl

/-- Whatever stands in front and is no word was in front before. -/
theorem of_expandFactorials {before : Bool} {l : Lexeme} {ls r : List Lexeme}
    (h : expandFactorials before ls = l :: r) (hl : ∀ w, l ≠ word w) :
    ∃ rest, ls = l :: rest ∧ r = expandFactorials (operandBefore before l) rest := by
  cases ls with
  | nil => cases h
  | cons l' rest =>
    obtain hglue | ⟨-, _, hcall⟩ := expandFactorials_cons before l' rest
    · rw [hglue] at h
      cases l' with
      | number | mark =>
        cases h
        exact ⟨rest, rfl, rfl⟩
      | word =>
        unfold glue at h
        split at h <;> exact absurd (List.cons.inj h).1.symm (hl _)
    · rw [hcall] at h
      exact absurd (List.cons.inj h).1.symm (hl _)

theorem cut_glue {l : Lexeme} {rest : List Lexeme} {before : Bool} (hl : l.Proper Char.isDigit)
    (hnext : ∀ r ∈ rest.head?, l.Apart r)
    (hrest : Cut Char.isDigit (expandFactorials before rest)) :
    Cut Char.isDigit (glue l (expandFactorials before rest)) := by
  generalize hexpanded : expandFactorials before rest = expanded at hrest ⊢
  unfold glue
  split
  · rename_i a b behind
    obtain ⟨⟨hhead, hb⟩, hbehind, hrest⟩ := hrest
    refine ⟨⟨?_, ?_⟩, by simpa using hbehind, hrest⟩
    · obtain ⟨c, ha, hc⟩ := hl.1
      exact ⟨c, by simp [show a.head? = some c from ha], hc⟩
    · intro c hc
      rcases List.mem_append.mp hc with hc | hc
      · exact hl.2 c hc
      · exact hb c hc
  · rename_i hwords
    refine ⟨hl, ?_, hrest⟩
    intro r hr
    rcases expanded with _ | ⟨r', behind⟩
    · simp at hr
    obtain rfl : r' = r := by simpa using hr
    cases r' with
    | word b =>
      cases l with
      | word a => exact absurd rfl (hwords a b behind rfl)
      | number | mark => simp
    | number figures =>
      obtain ⟨rest', rfl, -⟩ := of_expandFactorials hexpanded (by simp)
      exact hnext _ rfl
    | mark c => simp

theorem cut_expandFactorials (before : Bool) {ls : List Lexeme} (h : Cut Char.isDigit ls) :
    Cut Char.isDigit (expandFactorials before ls) := by
  fun_induction expandFactorials before ls with
  | case1 => trivial
  | case2 before a rest ih =>
    exact cut_factorialCall ⟨h.1, by simp, trivial⟩ (ih h.2.2.2.2)
  | case3 before a b rest ih =>
    obtain ⟨ha, -, hpoint, -, hb, -, -, -, hrest⟩ := h
    exact cut_factorialCall ⟨ha, by simp, hpoint, by simp, hb, by simp, trivial⟩ (ih hrest)
  | case4 before a rest ih =>
    obtain ⟨-, -, ha, -, -, -, hrest⟩ := h
    exact cut_signedCall ⟨ha, by simp, trivial⟩ (ih hrest)
  | case5 before a b rest ih =>
    obtain ⟨-, -, ha, -, hpoint, -, hb, -, -, -, hrest⟩ := h
    exact cut_signedCall ⟨ha, by simp, hpoint, by simp, hb, by simp, trivial⟩ (ih hrest)
  | case6 before l rest _ _ _ _ ih => exact cut_glue h.1 h.2.1 (ih h.2.2)

/-- The names of functions are words. -/
theorem proper_of_mem_functionNames {w : Text} (h : w ∈ functionNames) :
    (word w).Proper Char.isDigit := by
  revert w
  decide

/-- A name is canonical as it stands, or it is the name of a function and gets the
qualifier. -/
theorem canonicalName_cases (w : Text) :
    canonicalName w = [word w] ∨
      w ∈ functionNames ∧ ∃ n ∈ functionNames,
        canonicalName w = [word Function.qualifier, mark '.', word n] := by
  unfold canonicalName
  split
  · rename_i f hf
    obtain ⟨_, _, hnames, -⟩ := List.lookup_eq_some_iff.mp hf
    have hmem : (w, f) ∈ callNames := by simp [hnames]
    have hcalled : ∀ p ∈ callNames, p.1 ∈ functionNames ∧ p.2.name ∈ functionNames := by decide
    obtain ⟨hw, hname⟩ := hcalled _ hmem
    exact .inr ⟨hw, f.name, hname, rfl⟩
  · exact .inl rfl

/-- A lexeme in front keeps its kind, and all but words stay in front. -/
theorem head?_qualify {ls : List Lexeme} :
    ∀ r ∈ (qualify ls).head?, r ∈ ls.head? ∨ ∃ a b, word a ∈ ls.head? ∧ r = word b := by
  fun_cases qualify ls with
  | case1 => simp
  | case2 | case3 => simp
  | case4 f rest =>
    rcases canonicalName_cases f with hf | ⟨-, _, -, hf⟩ <;> simp [hf]
  | case5 => simp

theorem cut_qualify {ls : List Lexeme} (h : Cut Char.isDigit ls) :
    Cut Char.isDigit (qualify ls) := by
  have hword {l : Lexeme} {rest : List Lexeme} (hnext : ∀ r ∈ rest.head?, l.Apart r) :
      ∀ r ∈ (qualify rest).head?, l.Apart r := by
    intro r hr
    rcases head?_qualify r hr with hr | ⟨a, b, ha, rfl⟩
    · exact hnext r hr
    · have := hnext _ ha
      cases l <;> simp_all
  fun_induction qualify ls with
  | case1 => trivial
  | case2 f rest ih =>
    obtain ⟨hq, -, hpoint, -, hf, hnext, hrest⟩ := h
    exact ⟨hq, by simp, hpoint, by simp, hf, hword hnext, ih hrest⟩
  | case3 q f rest hq ih => exact ⟨h.1, hword h.2.1, ih h.2.2⟩
  | case4 f rest ih =>
    obtain ⟨hf, -, hopening, -, hrest⟩ := h
    have hbehind : Cut Char.isDigit (mark '(' :: qualify rest) :=
      cut_mark_cons.mpr ⟨hopening, ih hrest⟩
    rcases canonicalName_cases f with hname | ⟨-, g, hg, hname⟩ <;> rw [hname]
    · exact ⟨hf, by simp, hbehind⟩
    · exact ⟨by decide, by simp, ⟨rfl, rfl⟩, by simp, proper_of_mem_functionNames hg, by simp,
        hbehind⟩
  | case5 l rest _ _ ih => exact ⟨h.1, hword h.2.1, ih h.2.2⟩

/-! ## No step brings up a product -/

/-- The marks of the notation are no word characters. -/
theorem isWordChar_mark (c : Char) (h : c ∈ "+-*/^().!√".toList) : isWordChar c = false := by
  have hmarks : "+-*/^().!√".toList.all (!isWordChar ·) = true := by decide +kernel
  simpa using List.all_eq_true.mp hmarks c h

theorem startsFunction_iff {ls : List Lexeme} :
    startsFunction ls = true ↔
      (∃ w rest, ls = word w :: rest ∧ w ∈ functionNames ∧ wordEnds rest = true) ∨
        ∃ f rest, ls = word Function.qualifier :: mark '.' :: word f :: rest ∧
          f ∈ functionNames ∧ wordEnds rest = true := by
  have hpoint (rest : List Lexeme) : wordEnds (mark '.' :: rest) = true := by
    rw [wordEnds, isWordChar_mark '.' (by decide)]
    rfl
  constructor
  · intro h
    unfold startsFunction at h
    split at h
    · rename_i w f rest
      simp only [Bool.or_eq_true, Bool.and_eq_true, decide_eq_true_eq] at h
      rcases h with hw | ⟨⟨rfl, hf⟩, hrest⟩
      · exact .inl ⟨w, _, rfl, hw, hpoint _⟩
      · exact .inr ⟨f, rest, rfl, hf, hrest⟩
    · rename_i w rest _
      simp only [Bool.and_eq_true, decide_eq_true_eq] at h
      exact .inl ⟨w, rest, rfl, h⟩
    · cases h
  · rintro (⟨w, rest, rfl, hw, hrest⟩ | ⟨f, rest, rfl, hf, hrest⟩)
    · unfold startsFunction
      split <;> simp_all
    · simp [startsFunction, hf, hrest]

@[simp] theorem startsFactor_mark (c : Char) (rest : List Lexeme) :
    startsFactor (mark c :: rest) = decide (c = '(') := by
  unfold startsFactor
  split
  · simp_all
  · rename_i h
    simpa [startsFunction] using fun hc : c = '(' => h rest (by rw [hc])

@[simp] theorem startsNumber_mark (c : Char) (rest : List Lexeme) :
    startsNumber (mark c :: rest) = false := rfl

/-- Only an opening parenthesis is a mark that something is multiplied by. -/
theorem multiplies_mark {c : Char} (hc : c ≠ '(') (l : Lexeme) (rest : List Lexeme) :
    multiplies l (mark c :: rest) = false := by
  unfold multiplies
  split <;> simp [hc]

/-- Only a closing parenthesis and a factorial sign are marks that are multiplied. -/
theorem multiplies_of_mark_ne {c : Char} (hclosing : c ≠ ')') (hbang : c ≠ '!')
    (rest : List Lexeme) : multiplies (mark c) rest = false := by
  unfold multiplies
  split <;> simp_all

/-- Whatever is multiplied by the lexemes `ls'` is multiplied by `ls` too. -/
structure FewerFactors (ls' ls : List Lexeme) : Prop where
  factor : startsFactor ls' = true → startsFactor ls = true
  number : startsNumber ls' = true → startsNumber ls = true

theorem FewerFactors.multiplies {ls' ls : List Lexeme} (h : FewerFactors ls' ls) {l : Lexeme}
    (hl : multiplies l ls = false) : multiplies l ls' = false := by
  have hfactor := h.factor
  have hnumber := h.number
  unfold Notation.multiplies at hl ⊢
  split <;> simp_all

/-- A step that finds names and marks where they were.  `R` relates the result of
the step to the lexemes that it is made on. -/
structure Keeps (R : List Lexeme → List Lexeme → Prop) : Prop where
  name {w r ls} (h : R (word w :: r) ls) (hw : w ∈ functionNames ∨ w = Function.qualifier) :
    ∃ rest, ls = word w :: rest ∧ R r rest
  mark {c r ls} (h : R (mark c :: r) ls) (hc : c = '.' ∨ c = '(') :
    ∃ rest, ls = mark c :: rest ∧ R r rest
  number {figures r ls} (h : R (number figures :: r) ls) : ∃ rest, ls = number figures :: rest
  ends {r ls} (h : R r ls) (hr : wordEnds r = true) : wordEnds ls = true

namespace Keeps

variable {R : List Lexeme → List Lexeme → Prop}

theorem startsFunction (hkeeps : Keeps R) {ls' ls : List Lexeme} (h : R ls' ls)
    (hls : startsFunction ls' = true) : startsFunction ls = true := by
  rw [startsFunction_iff] at hls ⊢
  rcases hls with ⟨w, r, rfl, hw, hr⟩ | ⟨f, r, rfl, hf, hr⟩
  · obtain ⟨rest, rfl, hrest⟩ := hkeeps.name h (.inl hw)
    exact .inl ⟨w, rest, rfl, hw, hkeeps.ends hrest hr⟩
  · obtain ⟨_, rfl, hpoint⟩ := hkeeps.name h (.inr rfl)
    obtain ⟨_, rfl, hname⟩ := hkeeps.mark hpoint (.inl rfl)
    obtain ⟨rest, rfl, hrest⟩ := hkeeps.name hname (.inl hf)
    exact .inr ⟨f, rest, rfl, hf, hkeeps.ends hrest hr⟩

theorem fewerFactors (hkeeps : Keeps R) {ls' ls : List Lexeme} (h : R ls' ls) :
    FewerFactors ls' ls := by
  constructor
  · intro hls
    unfold startsFactor at hls
    split at hls
    · obtain ⟨rest, rfl, -⟩ := hkeeps.mark h (.inr rfl)
      rfl
    · have hfunction := hkeeps.startsFunction h hls
      unfold startsFactor
      split
      · rfl
      · exact hfunction
  · intro hls
    unfold startsNumber at hls
    split at hls
    · obtain ⟨rest, rfl⟩ := hkeeps.number h
      rfl
    · cases hls

end Keeps

/-! ### Products -/

/-- What is in front stays there. -/
theorem of_insertProducts {l : Lexeme} {ls r : List Lexeme} (h : l :: r = insertProducts ls) :
    ∃ rest, ls = l :: rest ∧ (multiplies l rest = false → r = insertProducts rest) := by
  cases ls with
  | nil => cases h
  | cons l' rest =>
    rw [insertProducts] at h
    split at h <;> cases h
    · rename_i hmul
      exact ⟨rest, rfl, fun hnone => absurd hmul (by simp [hnone])⟩
    · exact ⟨rest, rfl, fun _ => rfl⟩

theorem keeps_insertProducts : Keeps fun ls' ls => ls' = insertProducts ls where
  name {w r ls} h _ := by
    obtain ⟨rest, rfl, hr⟩ := of_insertProducts h
    exact ⟨rest, rfl, hr rfl⟩
  mark {c r ls} h hc := by
    obtain ⟨rest, rfl, hr⟩ := of_insertProducts h
    refine ⟨rest, rfl, hr ?_⟩
    rcases hc with rfl | rfl <;> rfl
  number {figures r ls} h := by
    obtain ⟨rest, rfl, -⟩ := of_insertProducts h
    exact ⟨rest, rfl⟩
  ends {r ls} h hr := by
    cases r with
    | nil =>
      cases ls with
      | nil => rfl
      | cons l rest =>
        rw [insertProducts] at h
        split at h <;> cases h
    | cons l r =>
      obtain ⟨rest, rfl, -⟩ := of_insertProducts h
      cases l <;> exact hr

theorem multiplied_insertProducts (ls : List Lexeme) : Multiplied (insertProducts ls) := by
  induction ls with
  | nil => trivial
  | cons l rest ih =>
    rw [insertProducts]
    split
    · exact ⟨multiplies_mark (by decide) l _, rfl, ih⟩
    · rename_i hl
      exact ⟨(keeps_insertProducts.fewerFactors rfl).multiplies (by simpa using hl), ih⟩

/-! ### Powers -/

/-- Whatever stands in front and is no asterisk was in front before. -/
theorem of_expandPowers {l : Lexeme} {ls r : List Lexeme} (h : l :: r = expandPowers ls)
    (hl : l ≠ mark '*') : ∃ rest, ls = l :: rest ∧ r = expandPowers rest := by
  cases ls with
  | nil => cases h
  | cons l' rest =>
    by_cases hpower : l' = mark '^'
    · rw [hpower, expandPowers_power] at h
      exact absurd (List.cons.inj h).1 hl
    · rw [expandPowers_cons hpower] at h
      obtain ⟨rfl, rfl⟩ := List.cons.inj h
      exact ⟨rest, rfl, rfl⟩

theorem keeps_expandPowers : Keeps fun ls' ls => ls' = expandPowers ls where
  name {w r ls} h _ := of_expandPowers h (by simp)
  mark {c r ls} h hc := by
    refine of_expandPowers h ?_
    rcases hc with rfl | rfl <;> simp
  number {figures r ls} h := by
    obtain ⟨rest, rfl, -⟩ := of_expandPowers h (by simp)
    exact ⟨rest, rfl⟩
  ends {r ls} h hr := by
    subst h
    cases ls with
    | nil => rfl
    | cons l rest =>
      by_cases hl : l = mark '^'
      · rw [hl, wordEnds, isWordChar_mark '^' (by decide)]
        rfl
      · rw [expandPowers_cons hl] at hr
        cases l with
        | word | number => rfl
        | mark c => exact hr

theorem multiplied_expandPowers {ls : List Lexeme} (h : Multiplied ls) :
    Multiplied (expandPowers ls) := by
  induction ls with
  | nil => trivial
  | cons l rest ih =>
    obtain ⟨hl, hrest⟩ := h
    by_cases hpower : l = mark '^'
    · rw [hpower, expandPowers_power]
      exact ⟨rfl, rfl, ih hrest⟩
    · rw [expandPowers_cons hpower]
      exact ⟨(keeps_expandPowers.fewerFactors rfl).multiplies hl, ih hrest⟩

/-! ### Factorials -/

/-- Function names and the qualifier are shorter than any word that ends in
`factorial`. -/
theorem length_le_of_name {w : Text} (hw : w ∈ functionNames ∨ w = Function.qualifier) :
    w.length ≤ 5 := by
  rcases hw with hw | rfl
  · revert w
    decide
  · decide

theorem keeps_expandFactorials :
    Keeps fun ls' ls => Cut Char.isDigit ls ∧ ∃ before, ls' = expandFactorials before ls where
  name {w r ls} h hw := by
    obtain ⟨hcut, before, h⟩ := h
    have hlength := length_le_of_name hw
    have hfactorial : Function.factorial.text.length = 9 := rfl
    cases ls with
    | nil => simp [expandFactorials] at h
    | cons l rest =>
      rcases expandFactorials_cons before l rest with hglue | ⟨-, _, hcall⟩
      · rw [hglue] at h
        cases l with
        | number | mark => cases h
        | word a =>
          rcases hcut.after_word with rfl | ⟨c, behind, rfl⟩
          · cases h
            exact ⟨[], rfl, trivial, true, rfl⟩
          · rcases expandFactorials_cons (operandBefore before (word a)) (mark c) behind with
              hmark | ⟨-, _, hcall⟩
            · rw [hmark, glue_mark, glue_word_mark] at h
              obtain ⟨hw, rfl⟩ := List.cons.inj h
              cases hw
              exact ⟨_, rfl, hcut.tail, _, by rw [hmark, glue_mark]⟩
            · rw [hcall, glue_word_word] at h
              obtain ⟨hw, -⟩ := List.cons.inj h
              rw [word.inj hw, List.length_append] at hlength
              omega
      · rw [hcall] at h
        obtain ⟨hw, -⟩ := List.cons.inj h
        rw [word.inj hw] at hlength
        omega
  mark {c r ls} h _ := by
    obtain ⟨hcut, before, h⟩ := h
    obtain ⟨rest, rfl, hr⟩ := of_expandFactorials h.symm (by simp)
    exact ⟨rest, rfl, hcut.tail, _, hr⟩
  number {figures r ls} h := by
    obtain ⟨_, before, h⟩ := h
    obtain ⟨rest, rfl, -⟩ := of_expandFactorials h.symm (by simp)
    exact ⟨rest, rfl⟩
  ends {r ls} h hr := by
    obtain ⟨-, before, rfl⟩ := h
    cases ls with
    | nil => rfl
    | cons l rest =>
      rcases expandFactorials_cons before l rest with hglue | ⟨⟨figures, rfl⟩ | rfl, -⟩
      · rw [hglue] at hr
        cases l with
        | word | number => rfl
        | mark c => exact hr
      · rfl
      · rw [wordEnds, isWordChar_mark '-' (by decide)]
        rfl

theorem fewerFactors_expandFactorials {ls : List Lexeme} (hcut : Cut Char.isDigit ls)
    (before : Bool) : FewerFactors (expandFactorials before ls) ls :=
  keeps_expandFactorials.fewerFactors ⟨hcut, before, rfl⟩

theorem multiplied_glue {l : Lexeme} {rest : List Lexeme} (hl : multiplies l rest = false)
    (hrest : Multiplied rest) : Multiplied (glue l rest) := by
  unfold glue
  split
  · exact ⟨rfl, hrest.2⟩
  · exact ⟨hl, hrest⟩

/-- The parenthesis that closes a call is followed like the factorial sign that it
stands for. -/
theorem multiplied_factorialCall {numeral rest : List Lexeme}
    (hnumeral : Multiplied (numeral ++ mark ')' :: rest)) :
    Multiplied (factorialCall numeral rest) :=
  ⟨rfl, rfl, hnumeral⟩

theorem multiplied_signedCall {before : Bool} {numeral rest : List Lexeme}
    (hnumeral : Multiplied (numeral ++ mark ')' :: rest)) :
    Multiplied (signedCall before numeral rest) := by
  unfold signedCall
  split
  · exact ⟨rfl, multiplied_factorialCall hnumeral⟩
  · exact multiplied_factorialCall ⟨rfl, hnumeral⟩

theorem multiplied_expandFactorials {before : Bool} {ls : List Lexeme}
    (hcut : Cut Char.isDigit ls) (h : Multiplied ls) :
    Multiplied (expandFactorials before ls) := by
  have hclosing {rest : List Lexeme} (hcut : Cut Char.isDigit rest)
      (hbang : multiplies (mark '!') rest = false) :
      multiplies (mark ')') (expandFactorials true rest) = false :=
    (fewerFactors_expandFactorials hcut true).multiplies (l := mark ')') hbang
  fun_induction expandFactorials before ls with
  | case1 => trivial
  | case2 before a rest ih =>
    obtain ⟨-, hbang, hrest⟩ := h
    have hbehind := hcut.tail.tail
    exact multiplied_factorialCall
      ⟨multiplies_mark (by decide) _ _, hclosing hbehind hbang, ih hbehind hrest⟩
  | case3 before a b rest ih =>
    obtain ⟨-, -, -, hbang, hrest⟩ := h
    have hbehind := hcut.tail.tail.tail.tail
    exact multiplied_factorialCall
      ⟨multiplies_mark (by decide) _ _, rfl, multiplies_mark (by decide) _ _,
        hclosing hbehind hbang, ih hbehind hrest⟩
  | case4 before a rest ih =>
    obtain ⟨-, -, hbang, hrest⟩ := h
    have hbehind := hcut.tail.tail.tail
    exact multiplied_signedCall
      ⟨multiplies_mark (by decide) _ _, hclosing hbehind hbang, ih hbehind hrest⟩
  | case5 before a b rest ih =>
    obtain ⟨-, -, -, -, hbang, hrest⟩ := h
    have hbehind := hcut.tail.tail.tail.tail.tail
    exact multiplied_signedCall
      ⟨multiplies_mark (by decide) _ _, rfl, multiplies_mark (by decide) _ _,
        hclosing hbehind hbang, ih hbehind hrest⟩
  | case6 before l rest _ _ _ _ ih =>
    exact multiplied_glue ((fewerFactors_expandFactorials hcut.tail _).multiplies h.1)
      (ih hcut.tail h.2)

/-! ### Names -/

/-- A lexeme stays in front, or it is the qualifier of a name that stays too, or it
is the name of a called function and gets the qualifier. -/
theorem qualify_cons (l : Lexeme) (rest : List Lexeme) :
    qualify (l :: rest) = l :: qualify rest ∨
      (∃ f behind, l = word Function.qualifier ∧ rest = mark '.' :: word f :: behind ∧
        qualify (l :: rest) =
          word Function.qualifier :: mark '.' :: word f :: qualify behind) ∨
      ∃ f ∈ functionNames, ∃ g ∈ functionNames, ∃ behind, l = word f ∧ rest = mark '(' :: behind ∧
        qualify (l :: rest) =
          word Function.qualifier :: mark '.' :: word g :: mark '(' :: qualify behind := by
  generalize hls : l :: rest = ls
  fun_cases qualify ls with
  | case1 => cases hls
  | case2 f behind =>
    cases hls
    exact .inr (.inl ⟨f, behind, rfl, rfl, rfl⟩)
  | case3 q f behind hq =>
    cases hls
    exact .inl rfl
  | case4 f behind =>
    cases hls
    rcases canonicalName_cases f with hname | ⟨hf, g, hg, hname⟩
    · exact .inl (by rw [hname]; rfl)
    · exact .inr (.inr ⟨f, hf, g, hg, behind, rfl, rfl, by rw [hname]; rfl⟩)
  | case5 l' rest' =>
    cases hls
    exact .inl rfl

/-- Whatever stands in front and is no qualifier was in front before. -/
theorem of_qualify {l : Lexeme} {ls r : List Lexeme} (h : qualify ls = l :: r)
    (hl : l ≠ word Function.qualifier) : ∃ rest, ls = l :: rest ∧ r = qualify rest := by
  cases ls with
  | nil => cases h
  | cons l' rest =>
    rcases qualify_cons l' rest with hkept | ⟨_, _, -, -, hqualified⟩ |
      ⟨_, -, _, -, _, -, -, hcalled⟩
    · rw [hkept] at h
      obtain ⟨rfl, rfl⟩ := List.cons.inj h
      exact ⟨rest, rfl, rfl⟩
    · rw [hqualified] at h
      exact absurd (List.cons.inj h).1.symm hl
    · rw [hcalled] at h
      exact absurd (List.cons.inj h).1.symm hl

theorem word_of_qualify {b : Text} {ls r : List Lexeme} (h : qualify ls = word b :: r) :
    ∃ a rest, ls = word a :: rest := by
  cases ls with
  | nil => cases h
  | cons l rest =>
    rcases qualify_cons l rest with hkept | ⟨_, _, rfl, -⟩ | ⟨f, -, _, -, _, rfl, -⟩
    · rw [hkept] at h
      exact ⟨b, rest, by rw [(List.cons.inj h).1]⟩
    · exact ⟨_, rest, rfl⟩
    · exact ⟨f, rest, rfl⟩

theorem wordEnds_of_qualify {ls : List Lexeme} (h : wordEnds (qualify ls) = true) :
    wordEnds ls = true := by
  cases ls with
  | nil => rfl
  | cons l rest =>
    cases l with
    | word | number => rfl
    | mark c =>
      rcases qualify_cons (mark c) rest with hkept | ⟨_, _, hl, -⟩ | ⟨_, -, _, -, _, hl, -⟩
      · rw [hkept] at h
        exact h
      · cases hl
      · cases hl

theorem qualifier_notMem_functionNames : Function.qualifier ∉ functionNames := by decide

theorem startsFunction_of_qualify {ls : List Lexeme} (h : startsFunction (qualify ls) = true) :
    startsFunction ls = true := by
  have hname {f : Text} (hf : f ∈ functionNames) : word f ≠ word Function.qualifier := by
    intro hword
    exact qualifier_notMem_functionNames (word.inj hword ▸ hf)
  rw [startsFunction_iff] at h
  rcases h with ⟨w, r, hls, hw, hr⟩ | ⟨f, r, hls, hf, hr⟩
  · obtain ⟨rest, rfl, rfl⟩ := of_qualify hls (hname hw)
    exact startsFunction_iff.mpr (.inl ⟨w, rest, rfl, hw, wordEnds_of_qualify hr⟩)
  · cases ls with
    | nil => cases hls
    | cons l rest =>
      rcases qualify_cons l rest with hkept | ⟨g, behind, rfl, rfl, hqualified⟩ |
        ⟨g, hg, _, -, behind, rfl, rfl, -⟩
      · rw [hkept] at hls
        obtain ⟨rfl, hrest⟩ := List.cons.inj hls
        obtain ⟨_, rfl, hpoint⟩ := of_qualify hrest (by simp)
        obtain ⟨rest, rfl, rfl⟩ := of_qualify hpoint.symm (hname hf)
        exact startsFunction_iff.mpr (.inr ⟨f, rest, rfl, hf, wordEnds_of_qualify hr⟩)
      · rw [hqualified] at hls
        simp only [List.cons.injEq, word.injEq, true_and] at hls
        obtain ⟨rfl, rfl⟩ := hls
        exact startsFunction_iff.mpr (.inr ⟨g, behind, rfl, hf, wordEnds_of_qualify hr⟩)
      · have hopening : wordEnds (mark '(' :: behind) = true := by
          rw [wordEnds, isWordChar_mark '(' (by decide)]
          rfl
        exact startsFunction_iff.mpr (.inl ⟨g, _, rfl, hg, hopening⟩)

theorem fewerFactors_qualify (ls : List Lexeme) : FewerFactors (qualify ls) ls := by
  constructor
  · intro h
    unfold startsFactor at h
    split at h
    · rename_i r hls
      obtain ⟨rest, rfl, -⟩ := of_qualify hls (by simp)
      rfl
    · have hfunction := startsFunction_of_qualify h
      unfold startsFactor
      split
      · rfl
      · exact hfunction
  · intro h
    unfold startsNumber at h
    split at h
    · rename_i figures r hls
      obtain ⟨rest, rfl, -⟩ := of_qualify hls (by simp)
      rfl
    · cases h

theorem multiplied_qualify {ls : List Lexeme} (h : Multiplied ls) : Multiplied (qualify ls) := by
  fun_induction qualify ls with
  | case1 => trivial
  | case2 f rest ih => exact ⟨rfl, rfl, rfl, ih h.2.2.2⟩
  | case3 q f rest hq ih => exact ⟨rfl, ih h.2⟩
  | case4 f rest ih =>
    rcases canonicalName_cases f with hname | ⟨-, g, -, hname⟩ <;> rw [hname]
    · exact ⟨rfl, rfl, ih h.2.2⟩
    · exact ⟨rfl, rfl, rfl, rfl, ih h.2.2⟩
  | case5 l rest _ _ ih => exact ⟨(fewerFactors_qualify rest).multiplies h.1, ih h.2⟩

theorem qualify_qualify (ls : List Lexeme) : qualify (qualify ls) = qualify ls := by
  fun_induction qualify ls with
  | case1 => rfl
  | case2 f rest ih => rw [qualify, if_pos rfl, ih]
  | case3 q f rest hq ih =>
    rcases qualify_cons (word q) (qualify (mark '.' :: word f :: rest)) with
      hkept | ⟨_, _, hqualifier, -⟩ | ⟨_, -, _, -, _, -, hopening, -⟩
    · rw [hkept, ih]
    · exact absurd (word.inj hqualifier) hq
    · obtain ⟨_, hpoint, -⟩ := of_qualify hopening (by simp)
      cases hpoint
  | case4 f rest ih =>
    unfold canonicalName
    split
    · simp only [List.cons_append, List.nil_append, qualify, ih, if_true]
    · rename_i hname
      simp [qualify, canonicalName, hname, ih]
  | case5 l rest hqualified hcalled ih =>
    rcases qualify_cons l (qualify rest) with
      hkept | ⟨_, _, rfl, hpoint, -⟩ | ⟨_, -, _, -, _, rfl, hopening, -⟩
    · rw [hkept, ih]
    · obtain ⟨behind, rfl, hname⟩ := of_qualify hpoint (by simp)
      obtain ⟨f, behind, rfl⟩ := word_of_qualify hname.symm
      exact absurd rfl (hqualified _ f behind rfl)
    · obtain ⟨behind, rfl, -⟩ := of_qualify hopening (by simp)
      exact absurd rfl (hcalled _ behind rfl)

/-! ## Powers and factorials are gone -/

theorem mark_mem_expandPowers {c : Char} {ls : List Lexeme} (h : mark c ∈ expandPowers ls) :
    mark c ∈ ls ∧ c ≠ '^' ∨ c = '*' := by
  obtain ⟨l, hl, hc⟩ := List.mem_flatMap.mp h
  split at hc
  · exact .inr (by simpa using hc)
  · rename_i hpower
    obtain rfl := List.mem_singleton.mp hc
    exact .inl ⟨hl, by simpa using hpower⟩

theorem mark_mem_glue {c : Char} {l : Lexeme} {rest : List Lexeme} (h : mark c ∈ glue l rest) :
    mark c = l ∨ mark c ∈ rest := by
  unfold glue at h
  split at h <;> simp_all

theorem mark_mem_expandFactorials {c : Char} {before : Bool} {ls : List Lexeme}
    (h : mark c ∈ expandFactorials before ls) : mark c ∈ ls ∨ c = '(' ∨ c = ')' := by
  fun_induction expandFactorials before ls with
  | case1 => cases h
  | case2 | case3 =>
    simp only [factorialCall, List.mem_cons, List.mem_append] at h ⊢
    grind
  | case4 | case5 =>
    unfold signedCall at h
    split at h <;> simp only [factorialCall, List.mem_cons, List.mem_append] at h ⊢ <;> grind
  | case6 before l rest _ _ _ _ ih =>
    rcases mark_mem_glue h with rfl | h
    · exact .inl List.mem_cons_self
    · exact (ih h).imp_left (List.mem_cons_of_mem l)

theorem mark_mem_qualify {c : Char} {ls : List Lexeme} (h : mark c ∈ qualify ls) :
    mark c ∈ ls ∨ c = '.' := by
  fun_induction qualify ls with
  | case1 => cases h
  | case2 | case3 | case5 =>
    simp only [List.mem_cons] at h ⊢
    grind
  | case4 f rest ih =>
    rcases canonicalName_cases f with hname | ⟨-, g, -, hname⟩ <;>
      simp only [hname, List.cons_append, List.nil_append, List.mem_cons] at h ⊢ <;> grind

/-- A step that leaves numbers and marks where they are brings no factorial about. -/
theorem startsFactorial_of_kept {R : List Lexeme → List Lexeme → Prop}
    (hkept : ∀ {l r ls}, R (l :: r) ls → (∀ w, l ≠ word w) → ∃ rest, ls = l :: rest ∧ R r rest)
    {l : Lexeme} {r rest : List Lexeme} (hrest : R r rest)
    (h : startsFactorial (l :: r) = true) : startsFactorial (l :: rest) = true := by
  obtain ⟨figures, behind, hls⟩ | ⟨whole, fraction, behind, hls⟩ := startsFactorial_iff.mp h
  · cases hls
    obtain ⟨_, rfl, -⟩ := hkept hrest (by simp)
    rfl
  · cases hls
    obtain ⟨_, rfl, hnumber⟩ := hkept hrest (by simp)
    obtain ⟨_, rfl, hbang⟩ := hkept hnumber (by simp)
    obtain ⟨_, rfl, -⟩ := hkept hbang (by simp)
    rfl

theorem startsFactorial_of_expandFactorials {before : Bool} {l : Lexeme} {rest : List Lexeme}
    (h : startsFactorial (l :: expandFactorials before rest) = true) :
    startsFactorial (l :: rest) = true := by
  refine startsFactorial_of_kept (R := fun r rest => ∃ before, expandFactorials before rest = r)
    ?_ ⟨before, rfl⟩ h
  rintro l r ls ⟨before, hls⟩ hl
  obtain ⟨rest, rfl, rfl⟩ := of_expandFactorials hls hl
  exact ⟨rest, rfl, _, rfl⟩

theorem startsFactorial_of_qualify {l : Lexeme} {rest : List Lexeme}
    (h : startsFactorial (l :: qualify rest) = true) : startsFactorial (l :: rest) = true := by
  refine startsFactorial_of_kept (R := fun r rest => qualify rest = r) ?_ rfl h
  intro l r ls hls hl
  obtain ⟨rest, rfl, rfl⟩ := of_qualify hls (hl _)
  exact ⟨rest, rfl, rfl⟩

theorem expanded_glue {before : Bool} {l : Lexeme} {rest : List Lexeme}
    (hl : startsFactorial (l :: rest) = false) (h : Expanded (expandFactorials before rest)) :
    Expanded (glue l (expandFactorials before rest)) := by
  have hstart : startsFactorial (l :: expandFactorials before rest) = false := by
    rw [← Bool.not_eq_true] at hl ⊢
    exact mt startsFactorial_of_expandFactorials hl
  unfold glue
  split
  · rename_i hbehind
    exact ⟨rfl, (hbehind ▸ h).2⟩
  · exact ⟨hstart, h⟩

theorem expanded_expandFactorials (before : Bool) (ls : List Lexeme) :
    Expanded (expandFactorials before ls) := by
  fun_induction expandFactorials before ls with
  | case1 => trivial
  | case2 before a rest ih => exact ⟨rfl, rfl, rfl, rfl, ih⟩
  | case3 before a b rest ih => exact ⟨rfl, rfl, rfl, rfl, rfl, rfl, ih⟩
  | case4 before a rest ih =>
    unfold signedCall
    split <;> exact ⟨rfl, rfl, rfl, rfl, rfl, ih⟩
  | case5 before a b rest ih =>
    unfold signedCall
    split <;> exact ⟨rfl, rfl, rfl, rfl, rfl, rfl, rfl, ih⟩
  | case6 before l rest hwhole hpoint _ _ ih =>
    exact expanded_glue (startsFactorial_cons_eq_false hwhole hpoint) ih

theorem expanded_qualify {ls : List Lexeme} (h : Expanded ls) : Expanded (qualify ls) := by
  fun_induction qualify ls with
  | case1 => trivial
  | case2 f rest ih => exact ⟨rfl, rfl, rfl, ih h.2.2.2⟩
  | case3 q f rest hq ih => exact ⟨rfl, ih h.2⟩
  | case4 f rest ih =>
    rcases canonicalName_cases f with hname | ⟨-, g, -, hname⟩ <;> rw [hname]
    · exact ⟨rfl, rfl, ih h.2.2⟩
    · exact ⟨rfl, rfl, rfl, rfl, ih h.2.2⟩
  | case5 l rest _ _ ih =>
    refine ⟨?_, ih h.2⟩
    rw [← Bool.not_eq_true]
    exact mt startsFactorial_of_qualify (by simp [h.1])

/-! ## The steps settle lexemes -/

theorem settled_canonical {ls : List Lexeme} (hcut : Cut Char.isDigit ls) :
    Settled (canonical ls) := by
  have hproducts := cut_insertProducts hcut
  have hpowers := cut_expandPowers hproducts
  have hfactorials := cut_expandFactorials false hpowers
  have hmultiplied := multiplied_expandPowers (multiplied_insertProducts ls)
  exact {
    cut := cut_qualify hfactorials
    products := multiplied_qualify (multiplied_expandFactorials hpowers hmultiplied)
    powers := by
      intro h
      rcases mark_mem_qualify h with h | h
      · rcases mark_mem_expandFactorials h with h | h
        · simpa using mark_mem_expandPowers h
        · simp at h
      · simp at h
    factorials := expanded_qualify (expanded_expandFactorials false _)
    names := qualify_qualify _ }

end PocketCalculator.Notation
