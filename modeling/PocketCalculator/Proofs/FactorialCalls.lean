import PocketCalculator.Proofs.Accepted
import PocketCalculator.Proofs.Locality
import PocketCalculator.Proofs.Typed.Rewriting

/-!
# Calls of the factorial

What `expandFactorials` writes, in two respects.

* The step and the step for names can change places (`expandFactorials_qualify`).  The name of a
  call runs into a word that stands directly before it, so this is not plain from the rules: the
  word that comes of it is never the name of a function, and behind a qualifier it stays as it
  is.
* `expandOutside` is the step without the look back: it leaves every minus outside the call.  The
  two steps differ only at a minus (`expandFactorials_eq_expandOutside`), and there
  `expandFactorials` goes on as the text in front tells it (`render_expandFactorials_append`).
-/

namespace PocketCalculator.Notation

open Lexeme

/-! ## Numerals with a factorial sign -/

theorem expandFactorials_numeral (n : Figures) (before : Bool) (rest : List Lexeme) :
    expandFactorials before (Stage.rooted.numeral n ++ mark '!' :: rest) =
      factorialCall (Stage.rooted.numeral n) (expandFactorials true rest) := by
  obtain ⟨whole, _ | fraction⟩ := n <;> rfl

theorem expandFactorials_minus_numeral (n : Figures) (before : Bool) (rest : List Lexeme) :
    expandFactorials before (mark '-' :: (Stage.rooted.numeral n ++ mark '!' :: rest)) =
      signedCall before (Stage.rooted.numeral n) (expandFactorials true rest) := by
  obtain ⟨whole, _ | fraction⟩ := n <;> rfl

theorem word_notMem_numeral (n : Figures) : ∀ name, word name ∉ Stage.rooted.numeral n := by
  obtain ⟨whole, _ | fraction⟩ := n <;> simp [Stage.numeral, Stage.rooted]

/-- A proper number is a run of digits. -/
theorem exists_digitRun {figures : Text} (h : (number figures).Proper Char.isDigit) :
    ∃ d : DigitRun, d.text = figures :=
  ⟨⟨figures, h.1, List.all_eq_true.mpr fun c hc => (h.2 c hc).2⟩, rfl⟩

/-- What begins a factorial is a numeral with its sign. -/
theorem exists_factorial {ls : List Lexeme} (hcut : Cut Char.isDigit ls)
    (h : startsFactorial ls = true) :
    ∃ (n : Figures) (rest : List Lexeme), ls = Stage.rooted.numeral n ++ mark '!' :: rest := by
  obtain ⟨_, rest, rfl⟩ | ⟨_, _, rest, rfl⟩ := startsFactorial_iff.mp h
  · obtain ⟨whole, rfl⟩ := exists_digitRun hcut.1
    exact ⟨⟨whole, none⟩, rest, rfl⟩
  · obtain ⟨whole, rfl⟩ := exists_digitRun hcut.1
    obtain ⟨fraction, rfl⟩ := exists_digitRun hcut.tail.tail.1
    exact ⟨⟨whole, some fraction⟩, rest, rfl⟩

/-! ## Names and calls -/

theorem qualify_mark (c : Char) (rest : List Lexeme) :
    qualify (mark c :: rest) = mark c :: qualify rest := by
  have hword (name : Text) : word name ∉ [mark c] := by simp
  exact qualify_append_of_noWord hword rest

theorem qualify_number (figures : Text) (rest : List Lexeme) :
    qualify (number figures :: rest) = number figures :: qualify rest := by
  have hword (name : Text) : word name ∉ [number figures] := by simp
  exact qualify_append_of_noWord hword rest

theorem qualify_factorialCall {numeral : List Lexeme} (h : ∀ name, word name ∉ numeral)
    (rest : List Lexeme) :
    qualify (factorialCall numeral rest) = factorialCall numeral (qualify rest) := by
  show qualify (word Function.factorial.text :: mark '(' :: (numeral ++ mark ')' :: rest)) = _
  rw [qualify, qualify_append_of_noWord h, qualify_mark]
  rfl

theorem qualify_signedCall {numeral : List Lexeme} (h : ∀ name, word name ∉ numeral)
    (before : Bool) (rest : List Lexeme) :
    qualify (signedCall before numeral rest) = signedCall before numeral (qualify rest) := by
  cases before with
  | false => exact qualify_factorialCall (by simpa using h) rest
  | true =>
    show qualify (mark '-' :: factorialCall numeral rest) = mark '-' :: _
    rw [qualify_mark, qualify_factorialCall h]

/-- A word that ends in the name of the factorial is not the name of a function. -/
theorem canonicalName_append (w : Text) :
    canonicalName (w ++ Function.factorial.text) = [word (w ++ Function.factorial.text)] := by
  obtain hkept | ⟨hname, -⟩ := canonicalName_cases (w ++ Function.factorial.text)
  · exact hkept
  · have hlength := length_le_of_name (.inl hname)
    have hfactorial : Function.factorial.text.length = 9 := rfl
    rw [List.length_append] at hlength
    omega

/-- Behind a word stands the mark that stood there before, or, in the place of a minus, the name of
a call, which runs into the word. -/
theorem expandFactorials_after_word {w : Text} {rest : List Lexeme}
    (hcut : Cut Char.isDigit (word w :: rest)) (before : Bool) :
    rest = [] ∨
      (∃ c behind, rest = mark c :: behind ∧ expandFactorials before rest =
        mark c :: expandFactorials (operandBefore before (mark c)) behind) ∨
      mark '-' ∈ rest ∧ ∃ behind, expandFactorials before rest =
        word Function.factorial.text :: mark '(' :: behind := by
  obtain rfl | ⟨c, behind, rfl⟩ := hcut.after_word
  · exact .inl rfl
  · obtain hkept | ⟨⟨figures, hnumber⟩ | hminus, hcall⟩ :=
      expandFactorials_cons before (mark c) behind
    · exact .inr (.inl ⟨c, behind, rfl, hkept⟩)
    · cases hnumber
    · exact .inr (.inr ⟨hminus ▸ List.mem_cons_self, hcall⟩)

theorem qualify_factorial (rest : List Lexeme) :
    qualify (word Function.factorial.text :: mark '(' :: rest) =
      word Function.factorial.text :: mark '(' :: qualify rest := by
  rw [qualify]
  rfl

theorem expandFactorials_word (w : Text) (before : Bool) (rest : List Lexeme) :
    expandFactorials before (word w :: rest) =
      glue (word w) (expandFactorials (operandBefore before (word w)) rest) :=
  expandFactorials_of_not rfl (by simp) before

/-- A word in front was in front before, or it is the name of a call. -/
theorem word_of_expandFactorials {before : Bool} {ls r : List Lexeme} {w : Text}
    (h : expandFactorials before ls = word w :: r) :
    (∃ v rest, ls = word v :: rest) ∨
      ∃ behind, word w :: r = word Function.factorial.text :: mark '(' :: behind := by
  cases ls with
  | nil => simp [expandFactorials] at h
  | cons l rest =>
    obtain hglue | ⟨-, behind, hcall⟩ := expandFactorials_cons before l rest
    · cases l with
      | word v => exact .inl ⟨v, rest, rfl⟩
      | number | mark => rw [hglue] at h; cases h
    · exact .inr ⟨behind, h.symm.trans hcall⟩

/-- A word in front of a point stays, if it is not the qualifier. -/
theorem qualify_word_point {q : Text} (hq : q ≠ Function.qualifier) (rest : List Lexeme) :
    qualify (word q :: mark '.' :: rest) = word q :: mark '.' :: qualify rest := by
  obtain hkept | ⟨_, _, hqualifier, -⟩ | ⟨_, -, _, -, _, -, hopening, -⟩ :=
    qualify_cons (word q) (mark '.' :: rest)
  · rw [hkept, qualify_mark]
  · exact absurd (word.inj hqualifier) hq
  · cases hopening

/-- A word behind the qualifier is no name that is changed. -/
theorem qualify_glue_qualified {f : Text} {rest : List Lexeme}
    (hcut : Cut Char.isDigit (word f :: rest)) (before : Bool) :
    qualify (word Function.qualifier :: mark '.' ::
        glue (word f) (expandFactorials before rest)) =
      word Function.qualifier :: mark '.' ::
        glue (word f) (qualify (expandFactorials before rest)) := by
  obtain rfl | ⟨c, behind, rfl, hkept⟩ | ⟨-, behind, hcall⟩ :=
      expandFactorials_after_word hcut before
  · rfl
  · rw [hkept, glue_word_mark, qualify, if_pos rfl, qualify_mark, glue_word_mark]
  · rw [hcall, glue_word_word, qualify, if_pos rfl, qualify_mark, qualify_factorial,
      glue_word_word]

/-- A word that is neither the qualifier of a name nor called itself stays. -/
theorem qualify_glue_word {w : Text} {rest : List Lexeme}
    (hcut : Cut Char.isDigit (word w :: rest))
    (hqualified : ∀ f behind, rest ≠ mark '.' :: word f :: behind)
    (hcalled : ∀ behind, rest ≠ mark '(' :: behind) (before : Bool) :
    qualify (glue (word w) (expandFactorials before rest)) =
      glue (word w) (qualify (expandFactorials before rest)) := by
  obtain rfl | ⟨c, behind, rfl, hkept⟩ | ⟨-, behind, hcall⟩ :=
      expandFactorials_after_word hcut before
  · rfl
  · rw [hkept, glue_word_mark, qualify_mark, glue_word_mark]
    obtain hplain | ⟨f, more, hw, hmore, hplain⟩ | ⟨_, -, _, -, more, -, hmore, -⟩ :=
      qualify_cons (word w) (mark c :: expandFactorials (operandBefore before (mark c)) behind)
    · rw [hplain, qualify_mark]
    · -- The qualifier and a point stand before the name of a call, which stays as it is.
      obtain ⟨hc, hbehind⟩ := List.cons.inj hmore
      obtain ⟨v, rest, rfl⟩ | ⟨r, hname⟩ := word_of_expandFactorials hbehind
      · exact absurd (by rw [hc]) (hqualified v rest)
      · rw [hplain, hw, hbehind, hname, qualify_factorial, hc]
        obtain ⟨hf, rfl⟩ := List.cons.inj hname
        rw [hf, qualify_mark]
    · exact absurd (by rw [(List.cons.inj hmore).1]) (hcalled behind)
  · rw [hcall, glue_word_word, qualify, canonicalName_append, qualify_factorial, glue_word_word]
    rfl

theorem startsFactorial_qualify {ls : List Lexeme} (h : startsFactorial (qualify ls) = true) :
    startsFactorial ls = true := by
  cases ls with
  | nil => cases h
  | cons l rest =>
    obtain hkept | ⟨_, _, -, -, hqualified⟩ | ⟨_, -, _, -, _, -, -, hcalled⟩ :=
      qualify_cons l rest
    · rw [hkept] at h
      exact startsFactorial_of_qualify h
    · rw [hqualified] at h
      cases h
    · rw [hcalled] at h
      cases h

/-- Where no factorial begins and no name is changed, both steps go on behind the lexeme. -/
theorem expandFactorials_qualify_cons {l : Lexeme} {rest : List Lexeme}
    (hcut : Cut Char.isDigit (l :: rest)) (hstart : startsFactorial (l :: rest) = false)
    (hminus : l = mark '-' → startsFactorial rest = false)
    (hqualified : ∀ w f behind, l = word w → rest ≠ mark '.' :: word f :: behind)
    (hcalled : ∀ w behind, l = word w → rest ≠ mark '(' :: behind) {before : Bool}
    (hrest : expandFactorials (operandBefore before l) (qualify rest) =
      qualify (expandFactorials (operandBefore before l) rest)) :
    expandFactorials before (l :: qualify rest) =
      qualify (expandFactorials before (l :: rest)) := by
  have hstart' : startsFactorial (l :: qualify rest) = false := by
    rw [← Bool.not_eq_true] at hstart ⊢
    exact mt startsFactorial_of_qualify hstart
  have hminus' (hl : l = mark '-') : startsFactorial (qualify rest) = false := by
    have hbehind := hminus hl
    rw [← Bool.not_eq_true] at hbehind ⊢
    exact mt startsFactorial_qualify hbehind
  rw [expandFactorials_of_not hstart hminus, expandFactorials_of_not hstart' hminus', hrest]
  cases l with
  | word w =>
    have hword := qualify_glue_word hcut (fun f behind => hqualified w f behind rfl)
      (fun behind => hcalled w behind rfl)
    exact (hword _).symm
  | number figures => exact (qualify_number figures _).symm
  | mark c => exact (qualify_mark c _).symm

/-- The steps for factorial signs and for names can change places: the calls of the one are not
named by the other, and names are changed only in front of a parenthesis. -/
theorem expandFactorials_qualify {ls : List Lexeme} (hcut : Cut Char.isDigit ls) (before : Bool) :
    expandFactorials before (qualify ls) = qualify (expandFactorials before ls) := by
  induction hn : ls.length using Nat.strong_induction_on generalizing ls before with
  | _ n ih =>
    subst hn
    by_cases hstart : startsFactorial ls = true
    · obtain ⟨n, rest, rfl⟩ := exists_factorial hcut hstart
      have hrest := ih rest.length (by simp only [List.length_append, List.length_cons]; omega)
        hcut.of_append.2.tail true rfl
      rw [qualify_append_of_noWord (word_notMem_numeral n), qualify_mark, expandFactorials_numeral,
        expandFactorials_numeral, qualify_factorialCall (word_notMem_numeral n), hrest]
    by_cases hminus : ∃ rest, ls = mark '-' :: rest ∧ startsFactorial rest = true
    · obtain ⟨_, rfl, hbehind⟩ := hminus
      obtain ⟨n, rest, rfl⟩ := exists_factorial hcut.tail hbehind
      have hrest := ih rest.length (by simp only [List.length_append, List.length_cons]; omega)
        hcut.tail.of_append.2.tail true rfl
      rw [qualify_mark, qualify_append_of_noWord (word_notMem_numeral n), qualify_mark,
        expandFactorials_minus_numeral, expandFactorials_minus_numeral,
        qualify_signedCall (word_notMem_numeral n), hrest]
    fun_cases qualify ls with
    | case1 => rfl
    | case2 f rest =>
      have hrest := ih rest.length (by simp only [List.length_cons]; omega) hcut.tail.tail.tail
      rw [expandFactorials_word_mark (by decide), expandFactorials_mark (by decide),
        expandFactorials_word, hrest _ rfl, expandFactorials_word_mark (by decide),
        expandFactorials_mark (by decide), expandFactorials_word,
        qualify_glue_qualified hcut.tail.tail]
    | case3 q f rest hq =>
      have hrest := ih (word f :: rest).length (by simp) hcut.tail.tail
      rw [qualify_mark, expandFactorials_word_mark (by decide), expandFactorials_mark (by decide),
        hrest _ rfl, expandFactorials_word_mark (by decide), expandFactorials_mark (by decide),
        qualify_word_point hq]
    | case4 f rest =>
      have hrest := ih rest.length (by simp only [List.length_cons]; omega) hcut.tail.tail false rfl
      have hopening (w : Text) (before : Bool) (ls : List Lexeme) :
          expandFactorials before (word w :: mark '(' :: ls) =
            word w :: mark '(' :: expandFactorials false ls := by
        rw [expandFactorials_word_mark (by decide), expandFactorials_mark (by decide)]
        rfl
      rw [hopening, qualify, ← hrest]
      obtain hname | ⟨-, g, -, hname⟩ := canonicalName_cases f <;> rw [hname]
      · exact hopening f before _
      · show expandFactorials before (word _ :: mark '.' :: word g :: mark '(' :: qualify rest) = _
        rw [expandFactorials_word_mark (by decide), expandFactorials_mark (by decide), hopening]
        rfl
    | case5 l rest hqualified hcalled =>
      rw [Bool.not_eq_true] at hstart
      have hbehind : l = mark '-' → startsFactorial rest = false := by
        rintro rfl
        rw [← Bool.not_eq_true]
        exact fun h => hminus ⟨rest, rfl, h⟩
      exact expandFactorials_qualify_cons hcut hstart hbehind hqualified hcalled
        (ih rest.length (by simp) hcut.tail (operandBefore before l) rfl)

/-! ## Every minus outside -/

/-- Turns factorial signs into calls, and leaves every minus outside. -/
def expandOutside : List Lexeme → List Lexeme
  | [] => []
  | number a :: mark '!' :: rest => factorialCall [number a] (expandOutside rest)
  | number a :: mark '.' :: number b :: mark '!' :: rest =>
    factorialCall [number a, mark '.', number b] (expandOutside rest)
  | l :: rest => l :: expandOutside rest

theorem expandOutside_numeral (n : Figures) (rest : List Lexeme) :
    expandOutside (Stage.rooted.numeral n ++ mark '!' :: rest) =
      factorialCall (Stage.rooted.numeral n) (expandOutside rest) := by
  obtain ⟨whole, _ | fraction⟩ := n <;> rfl

theorem expandOutside_of_not {l : Lexeme} {rest : List Lexeme}
    (h : startsFactorial (l :: rest) = false) :
    expandOutside (l :: rest) = l :: expandOutside rest := by
  rw [expandOutside]
  · rintro figures behind rfl rfl
    cases h
  · rintro whole fraction behind rfl rfl
    cases h

/-- A joint is one for this step too, and a minus is no exception. -/
theorem expandOutside_joint {c : Char} (hc : Joint c) (a b : List Lexeme) :
    expandOutside (a ++ mark c :: b) = expandOutside a ++ mark c :: expandOutside b := by
  fun_induction expandOutside a with
  | case1 => rfl
  | case2 figures rest ih | case3 whole fraction rest ih =>
    simp only [List.cons_append, expandOutside]
    rw [ih, ← factorialCall_append]
  | case4 l rest hwhole hpoint ih =>
    have hstart : startsFactorial (l :: (rest ++ mark c :: b)) = false := by
      rw [← List.cons_append, startsFactorial_joint hc, startsFactorial_cons_eq_false hwhole hpoint]
    rw [List.cons_append, expandOutside_of_not hstart, ih]
    rfl

/-- Where there is no minus, the two steps do the same. -/
theorem expandFactorials_eq_expandOutside {ls : List Lexeme} (hcut : Cut Char.isDigit ls)
    (h : mark '-' ∉ ls) (before : Bool) : expandFactorials before ls = expandOutside ls := by
  fun_induction expandFactorials before ls with
  | case1 => rfl
  | case2 before figures rest ih =>
    simp only [List.mem_cons, not_or] at h
    rw [expandOutside, ih hcut.tail.tail h.2.2]
  | case3 before whole fraction rest ih =>
    simp only [List.mem_cons, not_or] at h
    rw [expandOutside, ih hcut.tail.tail.tail.tail h.2.2.2.2]
  | case4 | case5 => exact absurd List.mem_cons_self h
  | case6 before l rest hwhole hpoint hminusWhole hminusPoint ih =>
    simp only [List.mem_cons, not_or] at h
    have hrest := ih hcut.tail h.2
    rw [expandOutside, ← hrest]
    · cases l with
      | number | mark => rfl
      | word w =>
        obtain rfl | ⟨c, behind, rfl, hkept⟩ | ⟨hminus, -⟩ :=
          expandFactorials_after_word hcut (operandBefore before (word w))
        · rfl
        · rw [hkept, glue_word_mark]
        · exact absurd hminus h.2
    · exact hwhole
    · exact hpoint

/-- Facts about lexemes hold if they hold where there is no minus, and are handed on over the first
minus. -/
theorem minus_induction {motive : List Lexeme → Prop} (free : ∀ a, mark '-' ∉ a → motive a)
    (minus : ∀ a b, mark '-' ∉ a → motive a → motive b → motive (a ++ mark '-' :: b))
    (ls : List Lexeme) :
    motive ls := by
  induction hn : ls.length using Nat.strong_induction_on generalizing ls with
  | _ n ih =>
    subst hn
    by_cases hmem : mark '-' ∈ ls
    · obtain ⟨a, b, rfl, ha⟩ := List.eq_append_cons_of_mem hmem
      have hb : motive b :=
        ih b.length (by simp only [List.length_append, List.length_cons]; omega) b rfl
      exact minus a b ha (free a ha) hb
    · exact free ls hmem

theorem joint_minus : Joint '-' := joint_of_mem (by decide)

theorem expandOutside_qualify {ls : List Lexeme} (hcut : Cut Char.isDigit ls) :
    expandOutside (qualify ls) = qualify (expandOutside ls) := by
  induction ls using minus_induction with
  | free a ha =>
    have hqualified : mark '-' ∉ qualify a := fun h =>
      (mark_mem_qualify h).elim ha (by decide)
    rw [← expandFactorials_eq_expandOutside (cut_qualify hcut) hqualified false,
      expandFactorials_qualify hcut, expandFactorials_eq_expandOutside hcut ha]
  | minus a b ha iha ihb =>
    obtain ⟨hcutA, hcutB⟩ := hcut.of_append
    rw [qualify_joint joint_minus, expandOutside_joint joint_minus, iha hcutA, ihb hcutB.tail,
      expandOutside_joint joint_minus, qualify_joint joint_minus]

/-! ## Texts -/

/-- The text of a call of the factorial. -/
def call (numeral : Text) : Text := Function.factorial.text ++ '(' :: (numeral ++ [')'])

theorem render_factorialCall (numeral rest : List Lexeme) :
    render (factorialCall numeral rest) = call (render numeral) ++ render rest := by
  simp [factorialCall, call, text]

theorem render_signedCall (before : Bool) (numeral rest : List Lexeme) :
    render (signedCall before numeral rest) =
      (if before then '-' :: call (render numeral) else call ('-' :: render numeral)) ++
        render rest := by
  cases before with
  | false => exact render_factorialCall _ rest
  | true => exact congrArg ('-' :: ·) (render_factorialCall numeral rest)

theorem render_glue (l : Lexeme) (rest : List Lexeme) :
    render (glue l rest) = l.text ++ render rest := by
  unfold glue
  split
  · simp [text]
  · rfl

/-- A minus behind a text is read with what is behind it; of the text in front it only matters
whether that ends in an operand. -/
theorem render_expandFactorials_append (before : Bool) (a b : List Lexeme) :
    render (expandFactorials before (a ++ mark '-' :: b)) =
      render (expandFactorials before a) ++
        render (expandFactorials (operandBehind before a) (mark '-' :: b)) := by
  fun_induction expandFactorials before a with
  | case1 => rfl
  | case2 before figures rest ih | case3 before whole fraction rest ih =>
    simp only [List.cons_append, expandFactorials]
    rw [render_factorialCall, render_factorialCall, ih, List.append_assoc]
    rfl
  | case4 before figures rest ih | case5 before whole fraction rest ih =>
    simp only [List.cons_append, expandFactorials]
    rw [render_signedCall, render_signedCall, ih, List.append_assoc]
    rfl
  | case6 before l rest hwhole hpoint hminusWhole hminusPoint ih =>
    have hstart : startsFactorial (l :: rest) = false :=
      startsFactorial_cons_eq_false hwhole hpoint
    have hbehind (hl : l = mark '-') : startsFactorial rest = false :=
      startsFactorial_eq_false (hminusWhole · · hl) (hminusPoint · · · hl)
    rw [List.cons_append, expandFactorials_cons_joint joint_minus hstart hbehind, render_glue,
      render_glue, ih, List.append_assoc]
    rfl

/-- What becomes of a minus and a factorial behind it. -/
theorem render_expandFactorials_minus (n : Figures) (before : Bool) (rest : List Lexeme) :
    render (expandFactorials before (mark '-' :: (Stage.rooted.numeral n ++ mark '!' :: rest))) =
      (if before then '-' :: call n.text else call ('-' :: n.text)) ++
        render (expandFactorials true rest) := by
  rw [expandFactorials_minus_numeral, render_signedCall, render_numeral]

/-- A call ends in an operand as the factorial sign does that it stands for. -/
theorem operandBehind_expandOutside (before : Bool) (ls : List Lexeme) :
    operandBehind before (expandOutside ls) = operandBehind before ls := by
  fun_induction expandOutside ls generalizing before with
  | case1 => rfl
  | case2 figures rest ih | case3 whole fraction rest ih => exact ih true
  | case4 l rest _ _ ih => exact ih (operandBefore before l)

theorem cut_expandOutside {ls : List Lexeme} (hcut : Cut Char.isDigit ls) :
    Cut Char.isDigit (expandOutside ls) := by
  induction ls using minus_induction with
  | free a ha =>
    rw [← expandFactorials_eq_expandOutside hcut ha false]
    exact cut_expandFactorials false hcut
  | minus a b ha iha ihb =>
    obtain ⟨hcutA, hcutB⟩ := hcut.of_append
    rw [expandOutside_joint joint_minus]
    exact (iha hcutA).append (cut_mark_cons.mpr ⟨hcutB.1, ihb hcutB.tail⟩) (by simp)

/-- Whether an operand stands behind the calls can be seen on their text. -/
theorem operandAtEnd_expandOutside {ls : List Lexeme} (hcut : Cut Char.isDigit ls) (before : Bool) :
    operandAtEnd before (render (expandOutside ls)) = operandBehind before ls := by
  have hproper : ∀ l ∈ expandOutside ls, l.Proper Char.isDigit := fun _ hl =>
    (cut_expandOutside hcut).proper hl
  rw [← operandBehind_expandOutside, operandBehind_eq hproper]

end PocketCalculator.Notation
