import Mathlib.Data.List.TakeWhile
import PocketCalculator.Proofs.Roots
import PocketCalculator.Proofs.Settled

/-!
# Joints

A blank, an operator sign and most other marks are read by themselves: no name, number,
group or factorial reaches over them.  At such a joint a text falls into two parts that the
steps of the notation take one by one.

* `expandRoots_stop`: a root that finds its operand on its own side finds no other.
* `startsFactorial_joint`: a numeral and its factorial sign stand on one side.
* `insertProducts_joint`, `expandFactorials_joint` and `qualify_joint`: the steps on lexemes.
  Only the factorial signs look back over the joint, to see whether an operand stands there.
-/

namespace PocketCalculator.Notation

open Lexeme

/-- A character that the notation does not read together with what stands beside it. -/
structure Joint (c : Char) : Prop where
  plain : isWordChar c = false
  opening : c ≠ '('
  closing : c ≠ ')'
  point : c ≠ '.'
  bang : c ≠ '!'
  root : c ≠ rootSign

theorem Joint.startsWord {c : Char} (hc : Joint c) : Lexeme.startsWord c = false := by
  rw [← Bool.not_eq_true]
  intro hstart
  have hword : isWordChar c = true := by
    obtain hletter | hunderscore := Bool.or_eq_true_iff.mp hstart
    · exact isWordChar_of_isAlphanum (by rw [Char.isAlphanum, hletter, Bool.true_or])
    · rw [beq_iff_eq.mp hunderscore]
      rfl
  rw [hc.plain] at hword
  cases hword

theorem Joint.isDigit {c : Char} (hc : Joint c) : c.isDigit = false := by
  rw [← Bool.not_eq_true]
  intro hdigit
  have hword := isWordChar_of_isAlphanum (by simp [Char.isAlphanum, hdigit] : c.isAlphanum = true)
  rw [hc.plain] at hword
  cases hword

theorem Joint.notMem_rootName {c : Char} (hc : Joint c) : c ∉ rootName := by
  have hall : rootName.all (fun d => d.isAlphanum || d == '.') = true := by decide
  intro hmem
  obtain hletter | hpoint := Bool.or_eq_true_iff.mp (List.all_eq_true.mp hall c hmem)
  · have := isWordChar_of_isAlphanum hletter
    rw [hc.plain] at this
    cases this
  · exact hc.point (beq_iff_eq.mp hpoint)

/-- A character at which a numeral, the name of a root and what a root takes come to an end, if
they have come so far.  A parenthesis is one too, where the group before it is closed. -/
structure Stop (c : Char) : Prop where
  digit : c.isDigit = false
  point : c ≠ '.'
  name : c ∉ rootName
  root : c ≠ rootSign

theorem Joint.stop {c : Char} (hc : Joint c) : Stop c :=
  ⟨hc.isDigit, hc.point, hc.notMem_rootName, hc.root⟩

theorem stop_closing : Stop ')' := by
  refine ⟨?_, ?_, ?_, ?_⟩ <;> decide

/-- The code points of the blanks, in ranges. -/
def blankRanges : List (Nat × Nat) :=
  [(0x9, 0xD), (0x20, 0x20), (0x85, 0x85), (0xA0, 0xA0), (0x1680, 0x1680), (0x2000, 0x200A),
    (0x2028, 0x2029), (0x202F, 0x202F), (0x205F, 0x205F), (0x3000, 0x3000)]

variable {c : Char}

theorem exists_blankRange (hc : isBlank c = true) :
    ∃ b ∈ blankRanges, b.1 ≤ c.toNat ∧ c.toNat ≤ b.2 := by
  simp only [isBlank, Bool.or_eq_true, Bool.and_eq_true, decide_eq_true_eq, beq_iff_eq] at hc
  simp only [blankRanges, List.mem_cons, List.not_mem_nil, or_false, exists_eq_or_imp,
    exists_eq_left]
  omega

theorem isWordChar_of_isBlank (hc : isBlank c = true) : isWordChar c = false := by
  have hapart : (wordRanges.all fun r => blankRanges.all fun b => r.2.blt b.1 || b.2.blt r.1) =
      true := by
    decide +kernel
  have hascii : isAsciiWord c = false := by
    rw [← Bool.not_eq_true]
    intro hword
    have hletter : Lexeme.startsWord c = true ∨ c.isDigit = true := by
      simp only [isAsciiWord, Char.isAlphanum, Lexeme.startsWord, Bool.or_eq_true] at hword ⊢
      grind
    rw [isBlank_eq_false hletter] at hc
    cases hc
  rw [isWordChar, hascii, Bool.false_or, List.any_eq_false]
  intro r hr hin
  obtain ⟨b, hb, hcode⟩ := exists_blankRange hc
  have hout := List.all_eq_true.mp (List.all_eq_true.mp hapart r hr) b hb
  simp only [Bool.or_eq_true, Nat.blt_eq] at hout
  simp only [Bool.and_eq_true, decide_eq_true_eq] at hin
  omega

/-- Blanks are joints. -/
theorem joint_of_isBlank (hc : isBlank c = true) : Joint c := by
  refine ⟨isWordChar_of_isBlank hc, ?_, ?_, ?_, ?_, ?_⟩ <;> rintro rfl <;> cases hc

/-! ## Roots -/

theorem takeWhile_append_cons {p : Char → Bool} (hc : p c = false) (a b : Text) :
    (a ++ c :: b).takeWhile p = a.takeWhile p ∧
      (a ++ c :: b).dropWhile p = a.dropWhile p ++ c :: b := by
  induction a with
  | nil => simp [hc]
  | cons d a ih =>
    cases hd : p d with
    | true => simp [hd, ih]
    | false => simp [hd]

theorem numeral?_stop (hc : Stop c) (a b : Text) :
    numeral? (a ++ c :: b) = (numeral? a).map fun split => (split.1, split.2 ++ c :: b) := by
  obtain ⟨htake, hdrop⟩ := takeWhile_append_cons hc.digit a b
  have hempty : (c :: b).takeWhile Char.isDigit = [] := by simp [hc.digit]
  unfold numeral?
  simp only [htake, hdrop]
  split
  · rfl
  · cases hrest : a.dropWhile Char.isDigit with
    | nil =>
      simp only [List.nil_append]
      split
      case h_1 r heq => exact absurd (List.cons.inj heq).1 hc.point
      case h_2 => rfl
    | cons d r =>
      obtain ⟨htake', hdrop'⟩ := takeWhile_append_cons hc.digit r b
      simp only [List.cons_append]
      split
      case h_1 r' heq =>
        cases heq
        simp only [htake', hdrop']
        split <;> rfl
      case h_2 hpoint =>
        split
        case h_1 r' heq =>
          cases heq
          exact absurd rfl (hpoint _)
        case h_2 => rfl

theorem dropLead?_append_cons {lead : Text} (hc : c ∉ lead) (a b : Text) :
    dropLead? lead (a ++ c :: b) = (dropLead? lead a).map (· ++ c :: b) := by
  induction lead generalizing a with
  | nil => rfl
  | cons l lead ih =>
    simp only [List.mem_cons, not_or] at hc
    cases a with
    | nil => simp [dropLead?, Ne.symm hc.1]
    | cons d a =>
      by_cases hd : l = d
      · simp [dropLead?, hd, ih hc.2]
      · simp [dropLead?, hd]

/-- A group that is closed does not see what comes behind it. -/
theorem closing?_append {depth : Nat} {a group rest : Text}
    (h : closing? depth a = some (group, rest)) (b : Text) :
    closing? depth (a ++ b) = some (group, rest ++ b) := by
  induction a generalizing depth group with
  | nil => cases h
  | cons d a ih =>
    rw [List.cons_append, closing?_cons]
    rw [closing?_cons] at h
    split at h
    case isTrue hclosing =>
      cases h
      exact if_pos hclosing
    case isFalse hclosing =>
      obtain ⟨⟨inner, rest⟩, hinner, heq⟩ := Option.map_eq_some_iff.mp h
      cases heq
      rw [if_neg hclosing, ih hinner]
      rfl

/-- A group that is not closed is not closed by a character that closes nothing. -/
theorem closing?_snoc (hc : c ≠ ')') {depth : Nat} {a : Text} (h : closing? depth a = none) :
    closing? depth (a ++ [c]) = none := by
  induction a generalizing depth with
  | nil =>
    rw [List.nil_append, closing?_cons, if_neg fun hclosing => hc hclosing.1]
    rfl
  | cons d a ih =>
    rw [List.cons_append, closing?_cons]
    rw [closing?_cons] at h
    split at h
    case isTrue => cases h
    case isFalse hclosing =>
      rw [if_neg hclosing, Option.map_eq_none_iff]
      exact ih (Option.map_eq_none_iff.mp h)

theorem group?_append {a group rest : Text} (h : group? a = some (group, rest)) (b : Text) :
    group? (a ++ b) = some (group, rest ++ b) := by
  obtain ⟨r, inner, rfl, rfl, hinner⟩ := group?_eq_some_iff.mp h
  exact group?_eq_some_iff.mpr ⟨r ++ b, inner, rfl, rfl, closing?_append hinner b⟩

theorem group?_snoc (hc : Joint c) {a : Text} (h : group? a = none) : group? (a ++ [c]) = none := by
  cases a with
  | nil =>
    rw [List.nil_append]
    unfold group?
    split
    case h_1 s heq => exact absurd (List.cons.inj heq).1 hc.opening
    case h_2 => rfl
  | cons d a =>
    rw [List.cons_append]
    unfold group? at h ⊢
    split
    case h_1 s heq =>
      cases heq
      exact Option.map_eq_none_iff.mpr (closing?_snoc hc.closing (Option.map_eq_none_iff.mp h))
    case h_2 => rfl

/-- An operand that is found ends before the character. -/
theorem operand?_stop (hc : Stop c) {a operand rest : Text}
    (h : operand? a = some (operand, rest)) (b : Text) :
    operand? (a ++ c :: b) = some (operand, rest ++ c :: b) := by
  unfold operand? at h ⊢
  rw [numeral?_stop hc, dropLead?_append_cons hc.name]
  cases hnumeral : numeral? a with
  | some split =>
    rw [hnumeral] at h
    cases h
    rfl
  | none =>
    rw [hnumeral] at h
    cases hlead : dropLead? rootName a with
    | none =>
      rw [hlead] at h
      exact group?_append h (c :: b)
    | some behind =>
      rw [hlead] at h
      obtain ⟨⟨group, rest⟩, hgroup, heq⟩ := Option.map_eq_some_iff.mp h
      cases heq
      exact Option.map_eq_some_iff.mpr ⟨_, group?_append hgroup (c :: b), rfl⟩

/-- Where there is no operand, a joint behind does not make one. -/
theorem operand?_snoc (hc : Joint c) {a : Text} (h : operand? a = none) :
    operand? (a ++ [c]) = none := by
  unfold operand? at h ⊢
  rw [numeral?_stop hc.stop, dropLead?_append_cons hc.notMem_rootName]
  cases hnumeral : numeral? a with
  | some split =>
    rw [hnumeral] at h
    cases h
  | none =>
    rw [hnumeral] at h
    cases hlead : dropLead? rootName a with
    | none =>
      rw [hlead] at h
      exact group?_snoc hc h
    | some behind =>
      rw [hlead] at h
      exact Option.map_eq_none_iff.mpr (group?_snoc hc (Option.map_eq_none_iff.mp h))

theorem trimStart_append {a : Text} (h : trimStart a ≠ []) (b : Text) :
    trimStart (a ++ b) = trimStart a ++ b := by
  induction a with
  | nil => exact absurd rfl h
  | cons d a ih =>
    unfold trimStart at h ih ⊢
    rw [List.cons_append]
    cases hd : isBlank d with
    | true =>
      rw [List.dropWhile_cons_of_pos hd] at h ⊢
      rw [List.dropWhile_cons_of_pos hd, ih h]
    | false =>
      have hd : ¬isBlank d = true := by simp [hd]
      rw [List.dropWhile_cons_of_neg hd, List.dropWhile_cons_of_neg hd, List.cons_append]

/-- The parts of a text have their roots expanded one by one, where both have an expansion. -/
theorem expandRoots_stop (hc : Stop c) {a b a' b' : Text} (ha : expandRoots a = some a')
    (hb : expandRoots b = some b') : expandRoots (a ++ c :: b) = some (a' ++ c :: b') := by
  induction a generalizing a' with
  | nil =>
    cases ha
    rw [List.nil_append, expandRoots, hb]
    exact if_neg hc.root
  | cons d a ih =>
    obtain ⟨behind, hbehind, ⟨hd, rfl⟩ | ⟨operand, rest, rfl, hoperand, rfl⟩⟩ :=
      expandRoots_cons_eq_some ha
    · rw [List.cons_append, expandRoots, ih hbehind]
      exact if_neg hd
    · have hsome : trimStart behind ≠ [] := by
        intro hnil
        rw [hnil] at hoperand
        cases hoperand
      rw [List.cons_append, expandRoots, ih hbehind]
      simp only [if_true, trimStart_append hsome, operand?_stop hc hoperand, Option.map_some]
      simp

/-- A root without an operand does not find one behind a blank at the end. -/
theorem expandRoots_snoc (hc : isBlank c = true) {a : Text} (ha : expandRoots a = none) :
    expandRoots (a ++ [c]) = none := by
  have hjoint : Joint c := joint_of_isBlank hc
  induction a with
  | nil => cases ha
  | cons d a ih =>
    rw [List.cons_append, expandRoots]
    rw [expandRoots] at ha
    cases hbehind : expandRoots a with
    | none => rw [ih hbehind]
    | some behind =>
      rw [hbehind] at ha
      rw [expandRoots_stop hjoint.stop hbehind rfl]
      simp only at ha ⊢
      split at ha
      case isFalse => cases ha
      case isTrue hd =>
        rw [if_pos hd]
        rw [Option.map_eq_none_iff] at ha ⊢
        by_cases hsome : trimStart behind = []
        · have hall : ∀ d ∈ behind ++ [c], isBlank d = true := by
            intro d hd
            obtain hd | hd := List.mem_append.mp hd
            · exact List.dropWhile_eq_nil_iff.mp hsome d hd
            · exact List.mem_singleton.mp hd ▸ hc
          rw [trimStart, List.dropWhile_eq_nil_iff.mpr hall]
          rfl
        · rw [trimStart_append hsome]
          exact operand?_snoc hjoint ha

/-! ## Lexemes -/

/-- What is read together does not reach over a joint. -/
theorem eq_append_of_joint (front : List Lexeme) (hfront : mark c ∉ front) {a b rest : List Lexeme}
    (h : a ++ mark c :: b = front ++ rest) : ∃ behind, a = front ++ behind := by
  obtain ⟨more, rfl, hmore⟩ | ⟨behind, rfl, -⟩ := List.append_eq_append_iff.mp h
  · cases more with
    | nil => exact ⟨[], by simp⟩
    | cons l more =>
      cases hmore
      exact absurd (by simp) hfront
  · exact ⟨behind, rfl⟩

/-! ### Products -/

theorem wordEnds_joint (hc : Joint c) (a b : List Lexeme) :
    wordEnds (a ++ mark c :: b) = wordEnds a := by
  cases a with
  | nil => simp [wordEnds, hc.plain]
  | cons l a => cases l <;> rfl

theorem startsFunction_joint (hc : Joint c) (a b : List Lexeme) :
    startsFunction (a ++ mark c :: b) = startsFunction a := by
  rw [Bool.eq_iff_iff, startsFunction_iff, startsFunction_iff]
  constructor
  · rintro (⟨w, rest, hls, hw, hrest⟩ | ⟨f, rest, hls, hf, hrest⟩)
    · obtain _ | ⟨l, a⟩ := a
      · cases hls
      · obtain ⟨rfl, rfl⟩ := List.cons.inj hls
        exact .inl ⟨w, a, rfl, hw, (wordEnds_joint hc a b).symm.trans hrest⟩
    · obtain _ | ⟨q, _ | ⟨point, _ | ⟨l, a⟩⟩⟩ := a
      · cases hls
      · cases hls
        exact absurd rfl hc.point
      · cases hls
      · cases hls
        exact .inr ⟨f, a, rfl, hf, (wordEnds_joint hc a b).symm.trans hrest⟩
  · rintro (⟨w, rest, rfl, hw, hrest⟩ | ⟨f, rest, rfl, hf, hrest⟩)
    · exact .inl ⟨w, _, rfl, hw, (wordEnds_joint hc rest b).trans hrest⟩
    · exact .inr ⟨f, _, rfl, hf, (wordEnds_joint hc rest b).trans hrest⟩

theorem multiplies_joint (hc : Joint c) (l : Lexeme) (a b : List Lexeme) :
    multiplies l (a ++ mark c :: b) = multiplies l a := by
  cases a with
  | nil =>
    rw [List.nil_append, multiplies_mark hc.opening]
    unfold multiplies
    split <;> rfl
  | cons r a =>
    have hfunction := startsFunction_joint hc (r :: a) b
    have hfactor : startsFactor (r :: a ++ mark c :: b) = startsFactor (r :: a) := by
      rw [List.cons_append] at hfunction ⊢
      unfold startsFactor
      split
      case h_1 heq =>
        cases heq
        rfl
      case h_2 hopening =>
        split
        case h_1 heq =>
          cases heq
          exact absurd rfl (hopening _)
        case h_2 => exact hfunction
    have hnumber : startsNumber (r :: a ++ mark c :: b) = startsNumber (r :: a) := by
      cases r <;> rfl
    unfold multiplies
    split <;> simp only [hfactor, hnumber]

theorem insertProducts_joint (hc : Joint c) (a b : List Lexeme) :
    insertProducts (a ++ mark c :: b) = insertProducts a ++ mark c :: insertProducts b := by
  induction a with
  | nil =>
    exact insertProducts_of_not (multiplies_of_mark_ne hc.closing hc.bang b)
  | cons l a ih =>
    rw [List.cons_append, insertProducts, insertProducts, multiplies_joint hc, ih]
    split <;> rfl

theorem expandPowers_joint (hc : c ≠ '^') (a b : List Lexeme) :
    expandPowers (a ++ mark c :: b) = expandPowers a ++ mark c :: expandPowers b := by
  rw [← expandPowers_cons (by simp [hc]), expandPowers, List.flatMap_append]
  rfl

/-! ### Factorial signs -/

theorem signedCall_append (before : Bool) (numeral rest more : List Lexeme) :
    signedCall before numeral rest ++ more = signedCall before numeral (rest ++ more) := by
  unfold signedCall
  split
  · rw [List.cons_append, factorialCall_append]
  · exact factorialCall_append _ rest more

theorem glue_joint (l : Lexeme) (a b : List Lexeme) :
    glue l (a ++ mark c :: b) = glue l a ++ mark c :: b := by
  cases l with
  | word w =>
    cases a with
    | nil => rfl
    | cons r a => cases r <;> rfl
  | number | mark => rfl

/-- Whether a list of lexemes ends in an operand, blanks aside; `before` says so of the text in
front of it. -/
def operandBehind (before : Bool) (ls : List Lexeme) : Bool := ls.foldl operandBefore before

/-- A factorial does not reach over a joint. -/
theorem startsFactorial_joint (hc : Joint c) (a b : List Lexeme) :
    startsFactorial (a ++ mark c :: b) = startsFactorial a := by
  rw [Bool.eq_iff_iff, startsFactorial_iff, startsFactorial_iff]
  constructor
  · rintro (⟨figures, rest, h⟩ | ⟨whole, fraction, rest, h⟩)
    · obtain ⟨behind, rfl⟩ :=
        eq_append_of_joint [number figures, mark '!'] (by simp [hc.bang]) h
      exact .inl ⟨figures, behind, rfl⟩
    · obtain ⟨behind, rfl⟩ :=
        eq_append_of_joint [number whole, mark '.', number fraction, mark '!']
          (by simp [hc.point, hc.bang]) h
      exact .inr ⟨whole, fraction, behind, rfl⟩
  · rintro (⟨figures, rest, rfl⟩ | ⟨whole, fraction, rest, rfl⟩)
    · exact .inl ⟨figures, _, rfl⟩
    · exact .inr ⟨whole, fraction, _, rfl⟩

/-- What begins no factorial begins none in front of a joint. -/
theorem expandFactorials_cons_joint (hc : Joint c) {l : Lexeme} {a : List Lexeme}
    (hstart : startsFactorial (l :: a) = false)
    (hminus : l = mark '-' → startsFactorial a = false) (before : Bool) (b : List Lexeme) :
    expandFactorials before (l :: (a ++ mark c :: b)) =
      glue l (expandFactorials (operandBefore before l) (a ++ mark c :: b)) := by
  apply expandFactorials_of_not
  · rw [← List.cons_append, startsFactorial_joint hc, hstart]
  · intro hl
    rw [startsFactorial_joint hc, hminus hl]

/-- Behind an operand a minus sign is a joint too. -/
theorem expandFactorials_joint (hc : Joint c) {before : Bool} {a : List Lexeme}
    (hminus : c = '-' → operandBehind before a = true) (b : List Lexeme) :
    expandFactorials before (a ++ mark c :: b) =
      expandFactorials before a ++ mark c ::
        expandFactorials (operandBefore (operandBehind before a) (mark c)) b := by
  fun_induction expandFactorials before a with
  | case1 before =>
    by_cases h : c = '-'
    · subst h
      exact expandFactorials_minus (hminus rfl) b
    · exact expandFactorials_mark h before b
  | case2 before figures rest ih | case3 before whole fraction rest ih =>
    simp only [List.cons_append, expandFactorials]
    rw [ih hminus, ← factorialCall_append]
    rfl
  | case4 before figures rest ih | case5 before whole fraction rest ih =>
    simp only [List.cons_append, expandFactorials]
    rw [ih hminus, ← signedCall_append]
    rfl
  | case6 before l rest hwhole hpoint hminusWhole hminusPoint ih =>
    have hstart : startsFactorial (l :: rest) = false :=
      startsFactorial_cons_eq_false hwhole hpoint
    have hbehind (hl : l = mark '-') : startsFactorial rest = false :=
      startsFactorial_eq_false (hminusWhole · · hl) (hminusPoint · · · hl)
    rw [List.cons_append, expandFactorials_cons_joint hc hstart hbehind, ih hminus, glue_joint]
    rfl

/-! ### Names -/

theorem qualify_joint (hc : Joint c) (a b : List Lexeme) :
    qualify (a ++ mark c :: b) = qualify a ++ mark c :: qualify b := by
  fun_induction qualify a with
  | case1 => rfl
  | case2 f rest ih => simp [qualify, ih]
  | case3 q f rest hq ih =>
    simp only [List.cons_append] at ih ⊢
    rw [qualify, if_neg hq, ih]
  | case4 f rest ih => simp only [List.cons_append, qualify, ih, List.append_assoc]
  | case5 l rest hqualified hcalled ih =>
    rw [List.cons_append, qualify, ih]
    · rfl
    · intro q f more hl hmore
      obtain ⟨behind, rfl⟩ := eq_append_of_joint [mark '.', word f] (by simp [hc.point]) hmore
      exact hqualified q f behind hl rfl
    · intro f more hl hmore
      obtain ⟨behind, rfl⟩ := eq_append_of_joint [mark '('] (by simp [hc.opening]) hmore
      exact hcalled f behind hl rfl

end PocketCalculator.Notation
