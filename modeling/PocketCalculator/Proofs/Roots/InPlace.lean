import PocketCalculator.Notation.Canonical
import PocketCalculator.Proofs.Roots.Bytes
import PocketCalculator.Proofs.Roots.Expansion

/-!
# Roots in place

Roots are expanded in the text itself, from the last one to the first.  A round looks for the last
root in front of a bound, measures its operand, writes the call over both and moves the bound to
where the root was.  Behind the bound no root is left, and what stands there is the expansion of
what stood there before: this is the invariant of `rounds_eq`.

* `expandInPlace_eq`: the rounds compute the expansion, and nothing is taken apart at an offset
  that is not one.
* `normalize_roots`: which texts have no canonical text, and what the expansion of the others is.
-/

namespace PocketCalculator.Notation

/-- The place of the last root sign. -/
def lastRoot? : Text → Option Nat
  | [] => none
  | c :: s =>
    match lastRoot? s with
    | some n => some (c.utf8Size + n)
    | none => if c = rootSign then some 0 else none

/-- What stands between two places. -/
def slice (start stop : Nat) (s : Text) : Except Misstep Text := do
  let (front, _) ← cutAt stop s
  let (_, piece) ← cutAt start front
  return piece

/-- Writes a text over what stands between two places. -/
def replace (start stop : Nat) (piece s : Text) : Except Misstep Text := do
  let (front, _) ← cutAt start s
  let (_, behind) ← cutAt stop s
  return front ++ piece ++ behind

/-- The expansion of a text whose roots have been replaced; none if one is left. -/
def replaced? (s : Text) : Option Text := if rootSign ∈ s then none else some s

/-- Writes a call over the root at a place and its operand; none if it has no operand. -/
def replaceRoot? (place : Nat) (s : Text) : Except Misstep (Option Text) := do
  let after := place + rootSign.utf8Size
  let (_, behind) ← cutAt after s
  let start := after + (← minus (byteSize behind) (byteSize (trimStart behind)))
  let (_, front) ← cutAt start s
  match ← operandSize? front with
  | none => return none
  | some size =>
    let operand ← slice start (start + size) s
    return some (← replace place (start + size) (rootName ++ enclosed operand) s)

/-- Expands the roots in front of a bound, one in each round. -/
def rounds : Nat → Nat → Text → Except Misstep (Option Text)
  | 0, _, s => .ok (replaced? s)
  | n + 1, bound, s => do
    let (left, _) ← cutAt bound s
    match lastRoot? left with
    | none => return replaced? s
    | some place =>
      match ← replaceRoot? place s with
      | none => return none
      | some s => rounds n place s

/-- Expands the roots of a text in place. -/
def expandInPlace (s : Text) : Except Misstep (Option Text) :=
  rounds (s.count rootSign) (byteSize s) s

variable {a b s : Text}

theorem slice_append (a b c : Text) :
    slice (byteSize a) (byteSize a + byteSize b) (a ++ (b ++ c)) = .ok b := by
  have hfront : cutAt (byteSize a + byteSize b) (a ++ (b ++ c)) = .ok (a ++ b, c) := by
    rw [← byteSize_append, ← List.append_assoc, cutAt_byteSize]
  simp [slice, hfront, cutAt_byteSize, bind, Except.bind, pure, Except.pure]

theorem replace_append (a b c piece : Text) :
    replace (byteSize a) (byteSize a + byteSize b) piece (a ++ (b ++ c)) =
      .ok (a ++ piece ++ c) := by
  have hbehind : cutAt (byteSize a + byteSize b) (a ++ (b ++ c)) = .ok (a ++ b, c) := by
    rw [← byteSize_append, ← List.append_assoc, cutAt_byteSize]
  simp [replace, hbehind, cutAt_byteSize, bind, Except.bind, pure, Except.pure]

theorem lastRoot?_of_none (h : lastRoot? s = none) : rootSign ∉ s := by
  induction s with
  | nil => exact List.not_mem_nil
  | cons c s ih =>
    rw [lastRoot?] at h
    split at h
    · cases h
    · rename_i hmissing
      split at h
      · cases h
      · rename_i hplain
        exact List.not_mem_cons_of_ne_of_not_mem (Ne.symm hplain) (ih hmissing)

theorem lastRoot?_eq_some {place : Nat} (h : lastRoot? s = some place) :
    ∃ a b, s = a ++ rootSign :: b ∧ rootSign ∉ b ∧ place = byteSize a := by
  induction s generalizing place with
  | nil => cases h
  | cons c s ih =>
    rw [lastRoot?] at h
    split at h
    · rename_i n hfound
      obtain ⟨a, b, rfl, habsent, rfl⟩ := ih hfound
      cases h
      exact ⟨c :: a, b, rfl, habsent, (byteSize_cons c a).symm⟩
    · rename_i hmissing
      split at h
      · rename_i hroot
        cases h
        exact ⟨[], s, by rw [hroot]; rfl, lastRoot?_of_none hmissing, rfl⟩
      · cases h

/-- Without a root in front of the bound there is none at all, and the text is the expansion. -/
theorem replaced?_eq {t tail : Text} (h : rootSign ∉ a) (hexpanded : expandRoots tail = some t) :
    replaced? (a ++ t) = expandRoots (a ++ tail) := by
  have habsent : rootSign ∉ a ++ t :=
    List.not_mem_append h (rootSign_notMem_of_expandRoots hexpanded)
  rw [replaced?, if_neg habsent, expandRoots_append h hexpanded]

theorem expandRoots_append_eq_none (a : Text) (h : expandRoots s = none) :
    expandRoots (a ++ s) = none := by
  induction a with
  | nil => exact h
  | cons c a ih => rw [List.cons_append, expandRoots, ih]

/-- A root is replaced by a call of its operand, and nothing goes wrong. -/
theorem replaceRoot?_eq (a b : Text) :
    replaceRoot? (byteSize a) (a ++ rootSign :: b) =
      .ok ((operand? (trimStart b)).map fun split =>
        a ++ (rootName ++ enclosed split.1 ++ split.2)) := by
  obtain ⟨blanks, -, hsplit⟩ := exists_trimStart b
  have hsize : byteSize b = byteSize blanks + byteSize (trimStart b) := by
    rw [← byteSize_append, ← hsplit]
  have hafter : cutAt (byteSize a + rootSign.utf8Size) (a ++ rootSign :: b) =
      .ok (a ++ [rootSign], b) := by
    have hcut := cutAt_byteSize (a ++ [rootSign]) b
    simpa using hcut
  have hblank : minus (byteSize b) (byteSize (trimStart b)) = .ok (byteSize blanks) := by
    simp [minus, hsize]
  have hstart : byteSize a + rootSign.utf8Size + byteSize blanks =
      byteSize (a ++ rootSign :: blanks) := by simp [Nat.add_assoc]
  have htext : a ++ rootSign :: b = (a ++ rootSign :: blanks) ++ trimStart b := by
    rw [List.append_assoc, List.cons_append, ← hsplit]
  simp only [replaceRoot?, hafter, hblank, hstart, bind, Except.bind]
  rw [htext]
  simp only [cutAt_byteSize, operandSize?_eq]
  cases hfound : operand? (trimStart b) with
  | none => rfl
  | some parts =>
    obtain ⟨operand, rest⟩ := parts
    have hstop : byteSize (a ++ rootSign :: blanks) + byteSize operand =
        byteSize a + byteSize (rootSign :: blanks ++ operand) := by simp [Nat.add_assoc]
    have hwhole : (a ++ rootSign :: blanks) ++ (operand ++ rest) =
        a ++ (rootSign :: blanks ++ operand ++ rest) := by simp
    rw [operand?_eq_some hfound]
    simp only [Option.map_some, slice_append]
    rw [hstop, hwhole, replace_append]
    simp [pure, Except.pure]

/-- Behind the bound stands the expansion of what stood there, and the rounds go on with the text
in front of it. -/
theorem rounds_eq {n : Nat} {front tail t : Text} (henough : front.count rootSign ≤ n)
    (hexpanded : expandRoots tail = some t) :
    rounds n (byteSize front) (front ++ t) = .ok (expandRoots (front ++ tail)) := by
  induction n generalizing front tail t with
  | zero =>
    have habsent : rootSign ∉ front := List.count_eq_zero.mp (by omega)
    rw [rounds, replaced?_eq habsent hexpanded]
  | succ n ih =>
    rw [rounds, cutAt_byteSize]
    simp only [bind, Except.bind]
    cases hlast : lastRoot? front with
    | none =>
      simp only [replaced?_eq (lastRoot?_of_none hlast) hexpanded]
      rfl
    | some place =>
      obtain ⟨a, b, rfl, habsent, rfl⟩ := lastRoot?_eq_some hlast
      have hbehind : expandRoots (b ++ tail) = some (b ++ t) := expandRoots_append habsent hexpanded
      have hshape (more : Text) : (a ++ rootSign :: b) ++ more = a ++ rootSign :: (b ++ more) := by
        simp
      have hfewer : a.count rootSign ≤ n := by
        rw [List.count_append, List.count_cons_self] at henough
        omega
      rw [hshape, hshape]
      simp only [replaceRoot?_eq]
      cases hfound : operand? (trimStart (b ++ t)) with
      | none =>
        have hfails : expandRoots (rootSign :: (b ++ tail)) = none := by
          rw [expandRoots, hbehind]
          simp [hfound]
        rw [expandRoots_append_eq_none a hfails]
        rfl
      | some split =>
        have hcall : expandRoots (rootSign :: (b ++ tail)) =
            some (rootName ++ enclosed split.1 ++ split.2) := by
          rw [expandRoots, hbehind, ← root_eq_call]
          simp [hfound]
        exact ih hfewer hcall

/-- The rounds compute the expansion, and nothing goes wrong. -/
theorem expandInPlace_eq (raw : Text) : expandInPlace raw = .ok (expandRoots raw) := by
  have hnothing : expandRoots [] = some [] := rfl
  have henough : raw.count rootSign ≤ raw.count rootSign := le_rfl
  simpa [expandInPlace] using rounds_eq henough hnothing

example : expandInPlace "2√ (1+√√4)é".toList =
    .ok (some "2math.sqrt((1+math.sqrt(math.sqrt(4))))é".toList) := by decide +kernel

/-! ## Roots without an operand -/

/-- Whether some root of a text has no operand to its right. -/
def LacksOperand (raw : Text) : Prop :=
  ∃ front behind, raw = front ++ rootSign :: behind ∧ ¬StartsOperand (trimStart behind)

theorem LacksOperand.not_blank (h : LacksOperand s) : s.all isBlank = false := by
  obtain ⟨front, behind, rfl, -⟩ := h
  exact List.all_eq_false.mpr ⟨rootSign, by simp, by decide⟩

theorem normalize_eq_emptyInput_iff (raw : Text) :
    normalize raw = .error .emptyInput ↔ raw.all isBlank = true := by
  rw [normalize]
  split_ifs with hblank
  · simp [hblank]
  · cases expandRoots raw <;> simp [hblank]

theorem normalize_eq_malformedRoot_iff (raw : Text) :
    normalize raw = .error .malformedRoot ↔ LacksOperand raw := by
  have hlacks : expandRoots raw = none ↔ LacksOperand raw := expandRoots_eq_none_iff
  rw [normalize]
  split_ifs with hblank
  · have hhas : ¬LacksOperand raw := fun h => by simp [h.not_blank] at hblank
    simp [hhas]
  · rw [← hlacks]
    cases expandRoots raw <;> simp

/-- A text has no canonical text if it is blank or one of its roots has no operand to its right.
The roots of any other text are expanded in place: each one becomes the opening of a call that is
closed behind its operand, and nothing else changes. -/
theorem normalize_roots (raw : Text) :
    (normalize raw = .error .emptyInput ↔ raw.all isBlank = true) ∧
      (normalize raw = .error .malformedRoot ↔ LacksOperand raw) ∧
      expandInPlace raw = .ok (expandRoots raw) ∧
      match expandRoots raw with
      | none => LacksOperand raw
      | some s => ¬LacksOperand raw ∧ rootSign ∉ s ∧ ∀ t, Expands raw t ↔ t = s := by
  refine ⟨normalize_eq_emptyInput_iff raw, normalize_eq_malformedRoot_iff raw,
    expandInPlace_eq raw, ?_⟩
  cases hexpanded : expandRoots raw with
  | none => exact expandRoots_eq_none_iff.mp hexpanded
  | some s =>
    refine ⟨fun hlacks => ?_, rootSign_notMem_of_expandRoots hexpanded, fun t => ?_⟩
    · rw [expandRoots_eq_none_iff.mpr hlacks] at hexpanded
      cases hexpanded
    · rw [← expandRoots_eq_some_iff, hexpanded, Option.some.injEq, eq_comm]

end PocketCalculator.Notation
