import PocketCalculator.Engine
import PocketCalculator.Proofs.Roots
import PocketCalculator.Proofs.Settled

/-!
# Normalization is idempotent

A text that is not blank, has no root sign and is cut into settled lexemes is a
fixed point of `normalize` (`normalize_of_settled`).  What `normalize` gives is
such a text (`settled_of_normalize`), so that normalizing once more gives it again.
-/

namespace PocketCalculator.Notation

open Lexeme

/-- The steps that a text takes through `normalize`. -/
theorem normalize_eq_ok_iff {raw y : Text} :
    normalize raw = .ok y ↔ raw.all isBlank = false ∧
      ∃ s, expandRoots raw = some s ∧ render (canonical (split Char.isDigit s)) = y := by
  unfold normalize
  constructor
  · intro h
    split at h
    · cases h
    · rename_i hblank
      split at h
      · cases h
      · rename_i s hs
        exact ⟨by simpa using hblank, s, hs, Except.ok.inj h⟩
  · rintro ⟨hblank, s, hs, rfl⟩
    rw [if_neg (by simp [hblank]), hs]

/-- A text that no step of `normalize` changes. -/
theorem normalize_of_settled {s : Text} (hblank : s.all isBlank = false) (hroot : rootSign ∉ s)
    (hsettled : Settled (split Char.isDigit s)) : normalize s = .ok s := by
  refine normalize_eq_ok_iff.mpr ⟨hblank, s, expandRoots_of_notMem hroot, ?_⟩
  rw [canonical_of_settled hsettled, render_split]

/-! ## Marks -/

theorem mark_mem_insertProducts {c : Char} {ls : List Lexeme} (h : mark c ∈ insertProducts ls) :
    mark c ∈ ls ∨ c = '*' := by
  induction ls with
  | nil => cases h
  | cons l rest ih =>
    rw [insertProducts] at h
    split at h <;> simp only [List.mem_cons] at h ⊢ <;> grind

/-- The marks of canonical lexemes. -/
theorem mark_mem_canonical {c : Char} {ls : List Lexeme} (h : mark c ∈ canonical ls) :
    mark c ∈ ls ∨ c ∈ "*().".toList := by
  rcases mark_mem_qualify h with h | rfl
  · rcases mark_mem_expandFactorials h with h | rfl | rfl
    · rcases mark_mem_expandPowers h with ⟨h, -⟩ | rfl
      · rcases mark_mem_insertProducts h with h | rfl
        · exact .inl h
        · exact .inr (by decide)
      · exact .inr (by decide)
    · exact .inr (by decide)
    · exact .inr (by decide)
  · exact .inr (by decide)

/-! ## Blanks -/

/-- Whether a lexeme is a blank. -/
def isBlankMark : Lexeme → Bool
  | mark c => isBlank c
  | _ => false

theorem all_isBlank_text {l : Lexeme} (h : l.Proper Char.isDigit) :
    l.text.all isBlank = isBlankMark l := by
  cases l with
  | word name =>
    obtain ⟨c, hc, hstart⟩ := h.1
    have hmem : c ∈ name := List.mem_of_mem_head? hc
    exact List.all_eq_false.mpr ⟨c, hmem, by simp [isBlank_eq_false (.inl hstart)]⟩
  | number figures =>
    obtain ⟨c, hc⟩ := List.exists_mem_of_ne_nil _ h.1
    exact List.all_eq_false.mpr ⟨c, hc, by simp [isBlank_eq_false (.inr (h.2 c hc).2)]⟩
  | mark c => simp [text, isBlankMark]

theorem all_isBlank_render {ls : List Lexeme} (h : Cut Char.isDigit ls) :
    (render ls).all isBlank = ls.all isBlankMark := by
  induction ls with
  | nil => rfl
  | cons l rest ih =>
    rw [render_cons, List.all_append, all_isBlank_text h.1, ih h.2.2, List.all_cons]

/-! ## Every step keeps what is not blank -/

theorem all_isBlankMark_insertProducts (ls : List Lexeme) :
    (insertProducts ls).all isBlankMark = ls.all isBlankMark := by
  induction ls with
  | nil => rfl
  | cons l rest ih =>
    rw [insertProducts]
    split
    · rename_i hmul
      have hl : isBlankMark l = false := by
        unfold multiplies at hmul
        split at hmul
        · rfl
        · decide
        · decide
        · cases hmul
      simp [hl]
    · simp [ih]

theorem all_isBlankMark_expandPowers (ls : List Lexeme) :
    (expandPowers ls).all isBlankMark = ls.all isBlankMark := by
  induction ls with
  | nil => rfl
  | cons l rest ih =>
    by_cases hpower : l = mark '^'
    · rw [hpower, expandPowers_power]
      rfl
    · rw [expandPowers_cons hpower, List.all_cons, List.all_cons, ih]

theorem all_isBlankMark_glue (l : Lexeme) (rest : List Lexeme) :
    (glue l rest).all isBlankMark = (l :: rest).all isBlankMark := by
  unfold glue
  split <;> rfl

theorem all_isBlankMark_expandFactorials (before : Bool) (ls : List Lexeme) :
    (expandFactorials before ls).all isBlankMark = ls.all isBlankMark := by
  fun_induction expandFactorials before ls with
  | case1 | case2 | case3 => rfl
  | case4 | case5 =>
    unfold signedCall
    split <;> rfl
  | case6 before l rest _ _ _ _ ih => rw [all_isBlankMark_glue, List.all_cons, List.all_cons, ih]

theorem all_isBlankMark_qualify (ls : List Lexeme) :
    (qualify ls).all isBlankMark = ls.all isBlankMark := by
  fun_induction qualify ls with
  | case1 | case2 | case3 => rfl
  | case4 f rest ih =>
    rcases canonicalName_cases f with hname | ⟨-, g, -, hname⟩ <;> rw [hname] <;> rfl
  | case5 l rest _ _ ih => rw [List.all_cons, List.all_cons, ih]

theorem all_isBlankMark_canonical (ls : List Lexeme) :
    (canonical ls).all isBlankMark = ls.all isBlankMark := by
  rw [canonical, all_isBlankMark_qualify, all_isBlankMark_expandFactorials,
    all_isBlankMark_expandPowers, all_isBlankMark_insertProducts]

/-! ## Normalizing once more -/

/-- What `normalize` gives is settled. -/
theorem settled_of_normalize {raw y : Text} (h : normalize raw = .ok y) :
    Settled (split Char.isDigit y) := by
  obtain ⟨-, s, -, rfl⟩ := normalize_eq_ok_iff.mp h
  have hsettled := settled_canonical (cut_split Char.isDigit s)
  rw [split_render hsettled.cut]
  exact hsettled

theorem rootSign_notMem_of_normalize {raw y : Text} (h : normalize raw = .ok y) :
    rootSign ∉ y := by
  obtain ⟨-, s, hs, rfl⟩ := normalize_eq_ok_iff.mp h
  have hcut := cut_split Char.isDigit s
  intro hmem
  rcases mark_mem_canonical ((settled_canonical hcut).cut.mark_mem hmem (by decide) (by decide))
    with hmark | hmark
  · refine rootSign_notMem_of_expandRoots hs ?_
    rw [← render_split Char.isDigit s]
    exact List.mem_flatMap.mpr ⟨_, hmark, List.mem_singleton.mpr rfl⟩
  · exact absurd hmark (by decide)

theorem not_blank_of_normalize {raw y : Text} (h : normalize raw = .ok y) :
    y.all isBlank = false := by
  obtain ⟨hraw, s, hs, rfl⟩ := normalize_eq_ok_iff.mp h
  have hcut := cut_split Char.isDigit s
  rw [all_isBlank_render (settled_canonical hcut).cut, all_isBlankMark_canonical,
    ← all_isBlank_render hcut, render_split, ← Bool.not_eq_true]
  intro hblank
  rw [all_isBlank_of_expandRoots hs hblank] at hraw
  cases hraw

/-- What `normalize` gives it gives again, and so it has the result that what was
typed has. -/
theorem normalize_idempotent {raw y : Text} (h : normalize raw = .ok y) :
    normalize y = .ok y ∧ ∀ lib : Elementary, compute lib y = compute lib raw := by
  have hfixed : normalize y = .ok y :=
    normalize_of_settled (not_blank_of_normalize h) (rootSign_notMem_of_normalize h)
      (settled_of_normalize h)
  refine ⟨hfixed, ?_⟩
  intro lib
  unfold compute
  rw [hfixed, h]

theorem normalize_idempotent_root_product :
    normalize "2√9 x-3!".toList = .ok "2*math.sqrt(9) xfactorial(-3)".toList ∧
      normalize "2*math.sqrt(9) xfactorial(-3)".toList =
        .ok "2*math.sqrt(9) xfactorial(-3)".toList ∧
      ∀ lib : Elementary, compute lib "2*math.sqrt(9) xfactorial(-3)".toList =
        compute lib "2√9 x-3!".toList := by
  have h : normalize "2√9 x-3!".toList = .ok "2*math.sqrt(9) xfactorial(-3)".toList :=
    normalize_eq_ok_iff.mpr
      ⟨by decide, "2math.sqrt(9) x-3!".toList, by decide, by decide +kernel⟩
  exact ⟨h, normalize_idempotent h⟩

end PocketCalculator.Notation
