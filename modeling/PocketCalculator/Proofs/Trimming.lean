import PocketCalculator.Engine
import PocketCalculator.Proofs.Reading

/-!
# Blanks at the ends

Blanks at the ends of a text stay at the ends of its normal form, and have no tokens there.
So a text and the trimmed text are computed alike, and fail alike.

* `normalize_cons_blank` and `normalize_snoc_blank`: one blank through the normalization.
* `compute_trim` is the conclusion; blanks are read as nothing (`Token.read_cons_blank`,
  `Token.read_snoc_blank`).
-/

namespace PocketCalculator

open Lexeme

variable {c : Char}

/-! ## Normal forms -/

namespace Notation

theorem canonical_cons_blank (hc : isBlank c = true) (ls : List Lexeme) :
    canonical (mark c :: ls) = mark c :: canonical ls := by
  have hjoint : Joint c := joint_of_isBlank hc
  have hnotPower : c ≠ '^' ∧ c ≠ '-' := by
    constructor <;> rintro rfl <;> cases hc
  have hproducts : insertProducts (mark c :: ls) = mark c :: insertProducts ls :=
    insertProducts_joint hjoint [] ls
  have hpowers : expandPowers (mark c :: insertProducts ls) =
      mark c :: expandPowers (insertProducts ls) :=
    expandPowers_cons (by simp [hnotPower.1]) _
  have hstate : operandBefore false (mark c) = false := if_pos hc
  rw [canonical, hproducts, hpowers, expandFactorials_mark hnotPower.2, hstate]
  exact qualify_joint hjoint [] _

theorem canonical_snoc_blank (hc : isBlank c = true) (ls : List Lexeme) :
    canonical (ls ++ [mark c]) = canonical ls ++ [mark c] := by
  have hjoint : Joint c := joint_of_isBlank hc
  have hnotPower : c ≠ '^' ∧ c ≠ '-' := by
    constructor <;> rintro rfl <;> cases hc
  rw [canonical, insertProducts_joint hjoint, insertProducts, expandPowers_joint hnotPower.1,
    expandPowers_nil, expandFactorials_joint hjoint (by simp [hnotPower.2]), expandFactorials,
    qualify_joint hjoint, qualify, canonical]

theorem normalize_cons_blank (hc : isBlank c = true) (s : Text) :
    normalize (c :: s) = (normalize s).map (c :: ·) := by
  have hjoint : Joint c := joint_of_isBlank hc
  unfold normalize
  rw [List.all_cons, hc, Bool.true_and]
  split
  · rfl
  · rw [expandRoots]
    cases expandRoots s with
    | none => rfl
    | some expanded =>
      simp only [if_neg hjoint.root]
      rw [split_mark_cons hjoint.startsWord hjoint.isDigit, canonical_cons_blank hc]
      rfl

theorem normalize_snoc_blank (hc : isBlank c = true) (s : Text) :
    normalize (s ++ [c]) = (normalize s).map (· ++ [c]) := by
  have hjoint : Joint c := joint_of_isBlank hc
  unfold normalize
  rw [List.all_append, List.all_cons, hc, List.all_nil, Bool.and_true, Bool.and_true]
  split
  · rfl
  · cases hexpanded : expandRoots s with
    | none => rw [expandRoots_snoc hc hexpanded]; rfl
    | some expanded =>
      rw [expandRoots_stop hjoint.stop hexpanded rfl]
      simp only [split_append_mark hjoint.startsWord hjoint.isDigit, split_nil,
        canonical_snoc_blank hc, Except.map]
      rw [render_append]
      rfl

end Notation

/-! ## Results -/

variable {lib : Elementary}

/-- What is done to a normal form without changing its tokens does not change the result. -/
theorem compute_of_normalize {raw raw' : Text} {f : Text → Text}
    (hnormal : Notation.normalize raw' = (Notation.normalize raw).map f)
    (hread : ∀ y, Token.read (f y) = Token.read y) : compute lib raw' = compute lib raw := by
  unfold compute
  rw [hnormal]
  cases Notation.normalize raw with
  | error err => rfl
  | ok y =>
    show evaluate lib (Namespace.degrees lib) (f y) = evaluate lib (Namespace.degrees lib) y
    unfold evaluate Postfix.ofText
    rw [hread]

theorem compute_cons_blank (hc : isBlank c = true) (s : Text) :
    compute lib (c :: s) = compute lib s :=
  compute_of_normalize (Notation.normalize_cons_blank hc s) (Token.read_cons_blank hc)

theorem compute_snoc_blank (hc : isBlank c = true) (s : Text) :
    compute lib (s ++ [c]) = compute lib s :=
  compute_of_normalize (Notation.normalize_snoc_blank hc s) (Token.read_snoc_blank hc)

theorem compute_trimStart (s : Text) : compute lib (trimStart s) = compute lib s := by
  induction s with
  | nil => rfl
  | cons c s ih =>
    rw [trimStart, List.dropWhile_cons]
    split
    case isTrue hc => exact ih.trans (compute_cons_blank hc s).symm
    case isFalse => rfl

theorem compute_trimEnd (s : Text) : compute lib (trimEnd s) = compute lib s := by
  suffices h : ∀ r : Text, compute lib (trimStart r).reverse = compute lib r.reverse by
    rw [trimEnd, h, List.reverse_reverse]
  intro r
  induction r with
  | nil => rfl
  | cons c r ih =>
    rw [trimStart, List.dropWhile_cons, List.reverse_cons]
    split
    case isTrue hc => exact ih.trans (compute_snoc_blank hc r.reverse).symm
    case isFalse => rw [List.reverse_cons]

/-- Blanks at the ends change neither a result nor an error. -/
theorem compute_trim (lib : Elementary) (s : Text) : compute lib (trim s) = compute lib s := by
  rw [trim, compute_trimEnd, compute_trimStart]

/-! ## Texts without blanks -/

theorem trimStart_of_not_isBlank {s : Text} (h : ∀ c ∈ s, isBlank c = false) :
    trimStart s = s := by
  cases s with
  | nil => rfl
  | cons c s => simp [trimStart, h]

theorem trim_of_not_isBlank {s : Text} (h : ∀ c ∈ s, isBlank c = false) : trim s = s := by
  have hbehind : trimStart s.reverse = s.reverse :=
    trimStart_of_not_isBlank fun c hc => h c (List.mem_reverse.mp hc)
  rw [trim, trimStart_of_not_isBlank h, trimEnd, hbehind, List.reverse_reverse]

end PocketCalculator
