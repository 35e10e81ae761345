import PocketCalculator.Number.Display

/-!
# The characters of shown numbers
-/

namespace PocketCalculator

/-- The characters of shown numbers that are not digits. -/
def numberSigns : Text := "-+.eNaNinf".toList

/-- Whether a character may stand in a shown number. -/
def InNumber (c : Char) : Prop := c.isDigit = true ∨ c ∈ numberSigns

theorem inNumber_of_all {s : Text}
    (h : s.all (fun c => c.isDigit || numberSigns.contains c) = true) : ∀ c ∈ s, InNumber c := by
  intro c hc
  have hin := List.all_eq_true.mp h c hc
  simpa [InNumber] using hin

namespace Decimal

theorem isDigit_of_mem_figures {d : Decimal} {c : Char} (h : c ∈ d.figures) : c.isDigit = true :=
  Nat.isDigit_of_mem_toDigits (by decide) (by decide) h

theorem inNumber_positional (d : Decimal) : ∀ c ∈ d.positional, InNumber c := by
  have hfigures : ∀ c ∈ d.figures, InNumber c := fun c h => .inl (isDigit_of_mem_figures h)
  have hzeros (n : Nat) : ∀ c ∈ List.replicate n '0', InNumber c := by
    intro c h
    rw [List.eq_of_mem_replicate h]
    exact .inl rfl
  have hpoint : InNumber '.' := .inr (by decide)
  intro c h
  unfold positional at h
  simp only at h
  split at h
  · exact (List.mem_append.mp h).elim (hfigures c) (hzeros _ c)
  · split at h
    · obtain h | h := List.mem_append.mp h
      · exact hfigures c (List.mem_of_mem_take h)
      · obtain rfl | h := List.mem_cons.mp h
        · exact hpoint
        · exact hfigures c (List.mem_of_mem_drop h)
    · obtain h | h := List.mem_append.mp h
      · obtain h | h := List.mem_append.mp h
        · exact inNumber_of_all (by decide) c h
        · exact hzeros _ c h
      · exact hfigures c h

theorem inNumber_scientific (d : Decimal) : ∀ c ∈ d.scientific, InNumber c := by
  have hfigures : ∀ c ∈ d.figures, InNumber c := fun c h => .inl (isDigit_of_mem_figures h)
  have hsigns : ∀ c ∈ "-+.e".toList, InNumber c := inNumber_of_all (by decide)
  intro c h
  unfold scientific at h
  simp only [List.mem_append, List.mem_cons] at h
  rcases h with (h | h) | rfl | rfl | h
  · exact hfigures c (List.mem_of_mem_take h)
  · split at h
    · cases h
    · obtain rfl | h := List.mem_cons.mp h
      · exact hsigns _ (by decide)
      · exact hfigures c (List.mem_of_mem_drop h)
  · exact hsigns _ (by decide)
  · split <;> exact hsigns _ (by decide)
  · exact .inl (Nat.isDigit_of_mem_toDigits (by decide) (by decide) h)

end Decimal

namespace Display

theorem inNumber_write {zero : Text} {finite : Decimal → Text} (hzero : ∀ c ∈ zero, InNumber c)
    (hfinite : ∀ d, ∀ c ∈ finite d, InNumber c) (x : Float) :
    ∀ c ∈ write zero finite x, InNumber c := by
  have hnan : ∀ c ∈ "NaN".toList, InNumber c := inNumber_of_all (by decide)
  have hinf : ∀ c ∈ "inf".toList, InNumber c := inNumber_of_all (by decide)
  have hminus : ∀ c ∈ ['-'], InNumber c := inNumber_of_all (by decide)
  intro c h
  unfold write at h
  simp only at h
  split at h
  · exact hnan c h
  · obtain h | h := List.mem_append.mp h
    · split at h
      · exact hminus c h
      · cases h
    · split at h
      · exact hzero c h
      · split at h
        · exact hinf c h
        · exact hfinite _ c h

/-- A shown number is made of digits and a few signs. -/
theorem inNumber_result (x : Float) : ∀ c ∈ result x, InNumber c := by
  have hzero : ∀ c ∈ ['0'], InNumber c := inNumber_of_all (by decide)
  unfold result
  split
  · exact hzero
  · split
    · exact inNumber_write hzero Decimal.inNumber_positional x
    · exact inNumber_write hzero Decimal.inNumber_scientific x

end Display

end PocketCalculator
