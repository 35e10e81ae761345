import Mathlib.Data.List.Basic
import Mathlib.Data.List.Induction
import PocketCalculator.Proofs.Idempotence
import PocketCalculator.Proofs.Joints

/-!
# Normalization is local to operands

An operator sign between two texts is a joint, so the two texts are normalized one by one.  This
is so for every sign but the minus: a minus may be the sign of a factorial behind it, and then
it goes into the call.  It stays where it is behind an operand.

Whether an operand stands before a minus is asked of the lexemes that the earlier steps leave.
It can be seen on the typed text already, by its last visible character:

* `operandBehind_eq`: on lexemes and on their text the answer is the same.
* `operandAtEnd_expandRoots`, `operandBehind_insertProducts` and `operandBehind_expandPowers`:
  the earlier steps do not change the answer.
-/

namespace PocketCalculator.Notation

open Lexeme

/-! ## The last visible character -/

/-- Whether a text ends in an operand, blanks aside; `before` says so of the text in front of
it. -/
def operandAtEnd (before : Bool) (s : Text) : Bool := operandBehind before (s.map mark)

theorem operandBehind_append (before : Bool) (a b : List Lexeme) :
    operandBehind before (a ++ b) = operandBehind (operandBehind before a) b := by
  simp [operandBehind]

theorem operandAtEnd_cons (before : Bool) (c : Char) (s : Text) :
    operandAtEnd before (c :: s) = operandAtEnd (operandBefore before (mark c)) s :=
  List.foldl_cons ..

theorem operandAtEnd_append (before : Bool) (a b : Text) :
    operandAtEnd before (a ++ b) = operandAtEnd (operandAtEnd before a) b := by
  rw [operandAtEnd, List.map_append, operandBehind_append]
  rfl

theorem operandAtEnd_concat (before : Bool) (s : Text) (c : Char) :
    operandAtEnd before (s ++ [c]) = operandBefore (operandAtEnd before s) (mark c) :=
  operandAtEnd_append before s [c]

theorem operandBefore_mark {c : Char} (hc : isBlank c = false) (before : Bool) :
    operandBefore before (mark c) = endsOperand c :=
  if_neg (by simp [hc])

theorem endsOperand_iff {c : Char} :
    endsOperand c = true ↔ c.isDigit = true ∨ c ∈ ".)!".toList := by
  simp [endsOperand, or_assoc]

theorem not_isBlank_of_endsOperand {c : Char} (hc : endsOperand c = true) : isBlank c = false := by
  obtain hdigit | hmark := endsOperand_iff.mp hc
  · exact isBlank_eq_false (.inr hdigit)
  · have hcases : c = '.' ∨ c = ')' ∨ c = '!' := by simpa using hmark
    obtain rfl | rfl | rfl := hcases <;> rfl

theorem trimEnd_concat (s : Text) (c : Char) :
    trimEnd (s ++ [c]) = if isBlank c then trimEnd s else s ++ [c] := by
  rw [trimEnd, trimStart, List.reverse_append, List.reverse_singleton, List.singleton_append,
    List.dropWhile_cons]
  split
  · rfl
  · rw [List.reverse_cons, List.reverse_reverse]

theorem operandAtEnd_trimEnd (before : Bool) (s : Text) :
    operandAtEnd before (trimEnd s) = operandAtEnd before s := by
  induction s using List.reverseRecOn with
  | nil => rfl
  | append_singleton s c ih =>
    rw [trimEnd_concat]
    split
    case isTrue hc => rw [ih, operandAtEnd_concat, operandBefore, if_pos hc]
    case isFalse => rfl

/-- The last visible character of a text tells whether the text ends in an operand. -/
theorem operandAtEnd_of_getLast? {s : Text} {c : Char} (hlast : c ∈ (trimEnd s).getLast?)
    (hc : endsOperand c = true) (before : Bool) : operandAtEnd before s = true := by
  obtain ⟨front, hfront⟩ := List.getLast?_eq_some_iff.mp hlast
  rw [← operandAtEnd_trimEnd, hfront, operandAtEnd_concat,
    operandBefore_mark (not_isBlank_of_endsOperand hc), hc]

/-! ## Texts and their lexemes -/

theorem operandAtEnd_of_visible {s : Text} (hne : s ≠ []) (h : ∀ c ∈ s, isBlank c = false)
    (before : Bool) : operandAtEnd before s = s.getLast?.any endsOperand := by
  obtain ⟨front, c, rfl⟩ := (List.eq_nil_or_concat' s).resolve_left hne
  have hc : isBlank c = false := h c (by simp)
  rw [operandAtEnd_concat, operandBefore_mark hc, List.getLast?_concat]
  rfl

theorem operandBefore_eq {l : Lexeme} (h : l.Proper Char.isDigit) (before : Bool) :
    operandBefore before l = operandAtEnd before l.text := by
  cases l with
  | word w =>
    obtain ⟨⟨c, hhead, -⟩, hw⟩ := h
    have hne : w ≠ [] := by
      rintro rfl
      cases hhead
    exact (operandAtEnd_of_visible hne (fun d hd => isBlank_eq_false (hw d hd)) before).symm
  | number figures =>
    obtain ⟨hne, hfigures⟩ := h
    obtain ⟨front, c, rfl⟩ := (List.eq_nil_or_concat' figures).resolve_left hne
    have hdigit : c.isDigit = true := (hfigures c (by simp)).2
    have hvisible : ∀ d ∈ front ++ [c], isBlank d = false := fun d hd =>
      isBlank_eq_false (.inr (hfigures d hd).2)
    rw [text, operandAtEnd_of_visible hne hvisible, List.getLast?_concat]
    simp [operandBefore, endsOperand, hdigit]
  | mark c => rfl

/-- The question whether an operand stands before a place has the same answer on lexemes and on
their text. -/
theorem operandBehind_eq {ls : List Lexeme} (h : ∀ l ∈ ls, l.Proper Char.isDigit)
    (before : Bool) : operandBehind before ls = operandAtEnd before (render ls) := by
  induction ls generalizing before with
  | nil => rfl
  | cons l rest ih =>
    obtain ⟨hl, hrest⟩ := List.forall_mem_cons.mp h
    rw [render_cons, operandAtEnd_append, ← operandBefore_eq hl, ← ih hrest]
    rfl

/-! ## The steps before the factorial signs -/

/-- What stands in front counts only if nothing visible comes after it. -/
theorem operandAtEnd_true {s : Text} {before : Bool} (h : operandAtEnd before s = true) :
    operandAtEnd true s = true := by
  cases before with
  | true => exact h
  | false =>
    induction s with
    | nil => rfl
    | cons c s ih =>
      rw [operandAtEnd_cons] at h ⊢
      cases hc : isBlank c with
      | true =>
        rw [operandBefore, if_pos hc] at h ⊢
        exact ih h
      | false =>
        rw [operandBefore_mark hc] at h ⊢
        exact h

theorem trimStart_eq (s : Text) : s = s.takeWhile isBlank ++ trimStart s :=
  List.takeWhile_append_dropWhile.symm

/-- The call that a root becomes ends in an operand if its operand does. -/
theorem operandAtEnd_expandRoots {a a' : Text} (ha : expandRoots a = some a') {before : Bool}
    (h : operandAtEnd before a = true) : operandAtEnd before a' = true := by
  induction a generalizing a' before with
  | nil =>
    cases ha
    exact h
  | cons c a ih =>
    obtain ⟨behind, hbehind, ⟨-, rfl⟩ | ⟨operand, rest, rfl, hoperand, rfl⟩⟩ :=
      expandRoots_cons_eq_some ha
    · exact ih hbehind h
    · have hend : operandAtEnd (operandBefore before (mark rootSign)) behind = true := ih hbehind h
      rw [trimStart_eq behind, operand?_eq_some hoperand, ← List.append_assoc,
        operandAtEnd_append] at hend
      rw [operandAtEnd_append, operandAtEnd_cons, operandBefore_mark (by decide)]
      exact operandAtEnd_true hend

/-- What is multiplied stands before something visible. -/
theorem operandBehind_of_multiplies {l : Lexeme} {rest : List Lexeme}
    (h : multiplies l rest = true) (before before' : Bool) :
    operandBehind before rest = operandBehind before' rest := by
  cases rest with
  | nil =>
    unfold multiplies at h
    split at h <;> cases h
  | cons r rest =>
    cases r with
    | word | number => rfl
    | mark c =>
      have hc : c = '(' := by
        by_contra hc
        rw [multiplies_mark hc] at h
        cases h
      subst hc
      rfl

theorem operandBehind_insertProducts (before : Bool) (ls : List Lexeme) :
    operandBehind before (insertProducts ls) = operandBehind before ls := by
  induction ls generalizing before with
  | nil => rfl
  | cons l rest ih =>
    rw [insertProducts]
    split
    case isTrue h =>
      show operandBehind false (insertProducts rest) = operandBehind (operandBefore before l) rest
      rw [ih, operandBehind_of_multiplies h]
    case isFalse => exact ih (operandBefore before l)

theorem operandBehind_expandPowers (before : Bool) (ls : List Lexeme) :
    operandBehind before (expandPowers ls) = operandBehind before ls := by
  induction ls generalizing before with
  | nil => rfl
  | cons l rest ih =>
    by_cases hl : l = mark '^'
    · rw [hl, expandPowers_power]
      exact ih false
    · rw [expandPowers_cons hl]
      exact ih (operandBefore before l)

/-! ## Operator signs -/

/-- Operator signs are joints. -/
theorem joint_of_mem {c : Char} (h : c ∈ "+-*/^".toList) : Joint c := by
  have hplain : isWordChar c = false :=
    isWordChar_mark c (List.mem_append_left "().!√".toList h)
  refine ⟨hplain, ?_, ?_, ?_, ?_, ?_⟩ <;> rintro rfl <;> revert h <;> decide

/-- The signs that stay as they are; the lexemes before and behind them are rewritten one by
one. -/
theorem canonical_sign {c : Char} (hc : c ∈ "+-*/".toList) {a : List Lexeme}
    (hminus : c = '-' → operandBehind false a = true) (b : List Lexeme) :
    canonical (a ++ mark c :: b) = canonical a ++ mark c :: canonical b := by
  have hjoint : Joint c := joint_of_mem (List.mem_append_left "^".toList hc)
  have hplain : c ≠ '^' ∧ isBlank c = false ∧ endsOperand c = false := by
    have hcases : c = '+' ∨ c = '-' ∨ c = '*' ∨ c = '/' := by simpa using hc
    obtain rfl | rfl | rfl | rfl := hcases <;> decide
  obtain ⟨hnotPower, hvisible, hnotOperand⟩ := hplain
  have hbehind : c = '-' → operandBehind false (expandPowers (insertProducts a)) = true := by
    rw [operandBehind_expandPowers, operandBehind_insertProducts]
    exact hminus
  rw [canonical, insertProducts_joint hjoint, expandPowers_joint hnotPower,
    expandFactorials_joint hjoint hbehind, operandBefore_mark hvisible, hnotOperand,
    qualify_joint hjoint]
  rfl

theorem expandPowers_append_power (a b : List Lexeme) :
    expandPowers (a ++ mark '^' :: b) =
      expandPowers a ++ mark '*' :: mark '*' :: expandPowers b := List.flatMap_append

/-- A power sign is rewritten to two stars, and the lexemes before and behind it one by one. -/
theorem canonical_power (a b : List Lexeme) :
    canonical (a ++ mark '^' :: b) = canonical a ++ mark '*' :: mark '*' :: canonical b := by
  have hpower : Joint '^' := joint_of_mem (by decide)
  have hstar : Joint '*' := joint_of_mem (by decide)
  have hnotMinus {before : Prop} : '*' = '-' → before := fun h => absurd h (by decide)
  rw [canonical, insertProducts_joint hpower, expandPowers_append_power,
    expandFactorials_joint hstar hnotMinus, expandFactorials_mark (by decide), qualify_joint hstar]
  exact congrArg (canonical a ++ mark '*' :: ·) (qualify_joint hstar [] _)

/-- Texts on the two sides of a joint are normalized one by one, if their lexemes are rewritten
one by one. -/
theorem normalize_append {c : Char} (hc : Joint c) {a b A B : Text} (ha : normalize a = .ok A)
    (hb : normalize b = .ok B) (sign : List Lexeme)
    (hcanonical : ∀ a', expandRoots a = some a' → ∀ ls,
      canonical (split Char.isDigit a' ++ mark c :: ls) =
        canonical (split Char.isDigit a') ++ (sign ++ canonical ls)) :
    normalize (a ++ c :: b) = .ok (A ++ (render sign ++ B)) := by
  obtain ⟨hblank, a', ha', rfl⟩ := normalize_eq_ok_iff.mp ha
  obtain ⟨-, b', hb', rfl⟩ := normalize_eq_ok_iff.mp hb
  refine normalize_eq_ok_iff.mpr ⟨by simp [hblank], _, expandRoots_stop hc.stop ha' hb', ?_⟩
  rw [split_append_mark hc.startsWord hc.isDigit, hcanonical a' ha', render_append, render_append]

/-- The last visible character of the typed text tells whether an operand stands before a sign
behind it. -/
theorem operandBehind_of_getLast? {a a' : Text} (ha : expandRoots a = some a') {c : Char}
    (hlast : c ∈ (trimEnd a).getLast?) (hc : endsOperand c = true) :
    operandBehind false (split Char.isDigit a') = true := by
  rw [operandBehind_eq (fun l hl => (cut_split _ a').proper hl), render_split]
  exact operandAtEnd_expandRoots ha (operandAtEnd_of_getLast? hlast hc false)

/-- Normalization is local to operands: the texts on the two sides of an operator sign are
normalized one by one.  For a minus this is so if an operand stands before it. -/
theorem normalize_is_local {a b A B : Text} (ha : normalize a = .ok A)
    (hb : normalize b = .ok B) :
    (∀ c ∈ "+*/".toList, normalize (a ++ c :: b) = .ok (A ++ c :: B)) ∧
      normalize (a ++ '^' :: b) = .ok (A ++ '*' :: '*' :: B) ∧
      ((∃ c ∈ (trimEnd a).getLast?, c.isDigit = true ∨ c ∈ ".)!".toList) →
        normalize (a ++ '-' :: b) = .ok (A ++ '-' :: B)) := by
  refine ⟨fun c hc => ?_, ?_, ?_⟩
  · have hcases : c = '+' ∨ c = '*' ∨ c = '/' := by simpa using hc
    have hsign : c ∈ "+-*/".toList ∧ c ≠ '-' := by
      obtain rfl | rfl | rfl := hcases <;> decide
    have hjoint : Joint c := joint_of_mem (List.mem_append_left "^".toList hsign.1)
    refine normalize_append hjoint ha hb [mark c] fun a' _ ls => ?_
    exact canonical_sign hsign.1 (fun h => absurd h hsign.2) ls
  · refine normalize_append (joint_of_mem (by decide)) ha hb [mark '*', mark '*'] fun a' _ ls => ?_
    exact canonical_power _ ls
  · rintro ⟨c, hlast, hc⟩
    have hends : endsOperand c = true := endsOperand_iff.mpr hc
    refine normalize_append (joint_of_mem (by decide)) ha hb [mark '-'] fun a' ha' ls => ?_
    exact canonical_sign (by decide) (fun _ => operandBehind_of_getLast? ha' hlast hends) ls

/-- The root before the minus is an operand, and the minus behind it is the sign of a
factorial. -/
theorem normalize_between_root_and_factorial :
    let a := "2√(9 ) ".toList
    let b := "-3!".toList
    let A := "2*math.sqrt((9 )) ".toList
    let B := "factorial(-3)".toList
    normalize a = .ok A ∧ normalize b = .ok B ∧ ')' ∈ (trimEnd a).getLast? ∧
      normalize (a ++ '*' :: b) = .ok (A ++ '*' :: B) ∧
      normalize (a ++ '^' :: b) = .ok (A ++ '*' :: '*' :: B) ∧
      normalize (a ++ '-' :: b) = .ok (A ++ '-' :: B) := by
  intro a b A B
  have ha : normalize a = .ok A := by decide +kernel
  have hb : normalize b = .ok B := by decide +kernel
  have hlast : ')' ∈ (trimEnd a).getLast? := by decide +kernel
  obtain ⟨hsigns, hpower, hminus⟩ := normalize_is_local ha hb
  exact ⟨ha, hb, hlast, hsigns '*' (by decide), hpower, hminus ⟨')', hlast, .inr (by decide)⟩⟩

end PocketCalculator.Notation
