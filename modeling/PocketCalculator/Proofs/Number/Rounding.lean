import Mathlib.Order.Monotone.Basic
import Mathlib.Tactic.Ring
import PocketCalculator.Number.Magnitude

/-!
# Rounding to the nearest magnitude

What rounds to a magnitude lies between the midpoints to its two neighbours, and a midpoint
itself goes to the even rank.  `Rounds` says this of a quotient of grains.  `nearest` finds a
rank that the quotient rounds to (`rounds_nearest`), and there is only one (`Rounds.unique`),
so whatever rounds to a rank has it as the nearest one (`nearest_of_rounds`).
-/

namespace PocketCalculator.Magnitude

/-! ## Binades -/

theorem perBinade_eq : perBinade = 4503599627370496 := rfl

/-- A magnitude by its binade and its place there; the place behind the last one is the first of
the next binade. -/
theorem grains_binade {b m : Nat} (hm : m ≤ 2 * perBinade) (hb : b = 0 ∨ perBinade ≤ m) :
    grains (b * perBinade + m) = m * 2 ^ b := by
  rw [perBinade_eq] at *
  unfold grains
  rw [perBinade_eq]
  obtain hlow | hhigh := Nat.lt_or_ge m 4503599627370496
  · obtain rfl : b = 0 := by omega
    rw [if_pos (by omega)]
    omega
  · rw [if_neg (by omega)]
    obtain hinside | rfl : m < 2 * 4503599627370496 ∨ m = 2 * 4503599627370496 := by omega
    · have hmod : (b * 4503599627370496 + m) % 4503599627370496 = m - 4503599627370496 := by omega
      have hdiv : (b * 4503599627370496 + m) / 4503599627370496 = b + 1 := by omega
      rw [hmod, hdiv, Nat.add_sub_cancel' hhigh]
      rfl
    · have hmod : (b * 4503599627370496 + 2 * 4503599627370496) % 4503599627370496 = 0 := by omega
      have hdiv : (b * 4503599627370496 + 2 * 4503599627370496) / 4503599627370496 = b + 1 + 1 := by
        omega
      rw [hmod, hdiv]
      show 4503599627370496 * 2 ^ (b + 1) = _
      rw [Nat.pow_succ]
      omega

theorem exists_binade (k : Nat) :
    ∃ b m, k = b * perBinade + m ∧ m < 2 * perBinade ∧ (b = 0 ∨ perBinade ≤ m) := by
  rw [perBinade_eq]
  refine ⟨k / 4503599627370496 - 1, k - (k / 4503599627370496 - 1) * 4503599627370496, ?_, ?_, ?_⟩
  all_goals omega

theorem grains_strictMono : StrictMono grains := by
  refine strictMono_nat_of_lt_succ fun k => ?_
  obtain ⟨b, m, rfl, hm, hb⟩ := exists_binade k
  rw [grains_binade (by omega) hb, Nat.add_assoc, grains_binade (by omega) (by omega)]
  exact Nat.mul_lt_mul_of_pos_right (Nat.lt_succ_self m) (Nat.two_pow_pos b)

theorem grains_pos {k : Nat} (hk : 0 < k) : 0 < grains k := grains_strictMono hk

/-! ## What rounds to a rank -/

/-- Whether `num / den` grains round to the magnitude of rank `k`. -/
structure Rounds (num den k : Nat) : Prop where
  low : (grains (k - 1) + grains k) * den ≤ 2 * num
  high : 2 * num ≤ (grains k + grains (k + 1)) * den
  /-- A midpoint rounds to the even rank. -/
  even : (grains (k - 1) + grains k) * den = 2 * num ∨
    2 * num = (grains k + grains (k + 1)) * den → k % 2 = 0

/-- Two ranks that a quotient rounds to are the same: else it is the midpoint between them, and
one of them is odd. -/
theorem Rounds.le {num den k n : Nat} (hden : 0 < den) (hk : Rounds num den k)
    (hn : Rounds num den n) : n ≤ k := by
  by_contra hlt
  have hlt : k < n := Nat.lt_of_not_le hlt
  have hbefore : grains k ≤ grains (n - 1) := grains_strictMono.monotone (by omega)
  have hbehind : grains (k + 1) ≤ grains n := grains_strictMono.monotone (by omega)
  have hmiddle : (grains k + grains (k + 1)) * den ≤ (grains (n - 1) + grains n) * den :=
    Nat.mul_le_mul_right den (by omega)
  have hsame : (grains k + grains (k + 1)) * den = (grains (n - 1) + grains n) * den :=
    Nat.le_antisymm hmiddle (hn.low.trans hk.high)
  have hgrains : grains (k + 1) = grains n := by
    have := Nat.eq_of_mul_eq_mul_right hden hsame
    omega
  have hnext : k + 1 = n := grains_strictMono.injective hgrains
  have hkEven : k % 2 = 0 := hk.even (.inr (Nat.le_antisymm hk.high (hsame ▸ hn.low)))
  have hnEven : n % 2 = 0 := hn.even (.inl (Nat.le_antisymm hn.low (hsame ▸ hk.high)))
  omega

theorem Rounds.unique {num den k n : Nat} (hden : 0 < den) (hk : Rounds num den k)
    (hn : Rounds num den n) : n = k :=
  Nat.le_antisymm (hk.le hden hn) (hn.le hden hk)

/-! ## The nearest rank -/

/-- Whether `q` is the natural number nearest to `num / den`, the even one of two. -/
structure Nearest (num den q : Nat) : Prop where
  low : 2 * q * den ≤ 2 * num + den
  high : 2 * num ≤ (2 * q + 1) * den
  even : 2 * q * den = 2 * num + den ∨ 2 * num = (2 * q + 1) * den → q % 2 = 0

theorem nearest_roundDiv (num : Nat) {den : Nat} (hden : 0 < den) :
    Nearest num den (roundDiv num den) := by
  have hsplit : den * (num / den) + num % den = num := Nat.div_add_mod num den
  have hless : num % den < den := Nat.mod_lt num hden
  unfold roundDiv
  simp only
  generalize num / den = q at *
  generalize num % den = r at *
  subst hsplit
  have hdouble (n : Nat) : 2 * n * den = 2 * (den * n) := by ring
  have hodd (n : Nat) : (2 * n + 1) * den = 2 * (den * n) + den := by ring
  have hsucc : den * (q + 1) = den * q + den := Nat.mul_succ den q
  split
  · constructor <;> simp only [hdouble, hodd] <;> omega
  · split
    · constructor <;> simp only [hdouble, hodd, hsucc] <;> omega
    · obtain heven | hodd' := Nat.mod_two_eq_zero_or_one q
      · rw [heven, Nat.add_zero]
        constructor <;> simp only [hdouble, hodd] <;> omega
      · rw [hodd']
        constructor <;> simp only [hdouble, hodd, hsucc] <;> omega

/-- A quotient lies in its binade, or below the first one. -/
theorem binade_spec {q : Nat} :
    q / 2 ^ (q.log2 - 52) < 2 * perBinade ∧
      (q.log2 - 52 = 0 ∨ perBinade ≤ q / 2 ^ (q.log2 - 52)) := by
  have hbound : q < 2 ^ (q.log2 + 1) := Nat.lt_log2_self
  constructor
  · refine Nat.div_lt_of_lt_mul (hbound.trans_le ?_)
    have hpower : 2 * perBinade = 2 ^ 53 := rfl
    rw [hpower, ← Nat.pow_add]
    exact Nat.pow_le_pow_right (by decide) (by omega)
  · obtain hlow | hhigh := Nat.lt_or_ge 52 q.log2
    · right
      have hne : q ≠ 0 := by
        rintro rfl
        simp at hlow
      have hpower : perBinade = 2 ^ 52 := rfl
      rw [Nat.le_div_iff_mul_le (Nat.two_pow_pos _), hpower, ← Nat.pow_add]
      exact (Nat.pow_le_pow_right (by decide) (by omega)).trans (Nat.log2_self_le hne)
    · left
      omega

theorem roundDiv_bounds (num den : Nat) :
    num / den ≤ roundDiv num den ∧ roundDiv num den ≤ num / den + 1 := by
  unfold roundDiv
  simp only
  split
  · omega
  · split <;> omega

/-- Behind a place of a binade the magnitudes are at least as far apart as in it. -/
theorem le_grains_succ {b m : Nat} (hm : m ≤ 2 * perBinade) (hb : b = 0 ∨ perBinade ≤ m) :
    (m + 1) * 2 ^ b ≤ grains (b * perBinade + m + 1) := by
  obtain hinside | rfl := Nat.lt_or_eq_of_le hm
  · rw [Nat.add_assoc, grains_binade (by omega) (by omega)]
  · have hnext : b * perBinade + 2 * perBinade + 1 = (b + 1) * perBinade + (perBinade + 1) := by
      ring
    have hplace : perBinade + 1 ≤ 2 * perBinade := by
      rw [perBinade_eq]
      omega
    rw [hnext, grains_binade hplace (by omega)]
    calc (2 * perBinade + 1) * 2 ^ b ≤ (2 * perBinade + 2) * 2 ^ b :=
          Nat.mul_le_mul_right _ (by omega)
      _ = (perBinade + 1) * 2 ^ (b + 1) := by ring

/-- Before a place of a binade that is not its first one the magnitudes are as far apart. -/
theorem grains_pred {b m : Nat} (hm : m < 2 * perBinade) (hb : b = 0 ∨ perBinade ≤ m) :
    grains (b * perBinade + (m + 1) - 1) = m * 2 ^ b := by
  rw [← Nat.add_assoc, Nat.add_sub_cancel]
  exact grains_binade (by omega) hb

section

variable {num den b r : Nat}

theorem grains_mul (hplace : r ≤ 2 * perBinade) (hb : b = 0 ∨ perBinade ≤ r) :
    grains (b * perBinade + r) * den = r * (den * 2 ^ b) := by
  rw [grains_binade hplace hb]
  ring

/-- The midpoint in front of a magnitude that a quotient is rounded to is not above it. -/
theorem midpoint_le (hden : 0 < den) (hplace : r ≤ 2 * perBinade)
    (hb : b = 0 ∨ perBinade ≤ num / (den * 2 ^ b)) (hr : num / (den * 2 ^ b) ≤ r)
    (h : Nearest num (den * 2 ^ b) r) :
    (grains (b * perBinade + r - 1) + grains (b * perBinade + r)) * den ≤ 2 * num ∧
      ((grains (b * perBinade + r - 1) + grains (b * perBinade + r)) * den = 2 * num →
        r % 2 = 0) := by
  have hb' : b = 0 ∨ perBinade ≤ r := by omega
  obtain _ | m := r
  · obtain rfl : b = 0 := hb'.resolve_right (by rw [perBinade_eq]; omega)
    rw [Nat.zero_mul]
    exact ⟨(Nat.zero_mul den).symm ▸ Nat.zero_le _, fun _ => rfl⟩
  · by_cases hinside : b = 0 ∨ perBinade ≤ m
    · have hsum : (grains (b * perBinade + (m + 1) - 1) + grains (b * perBinade + (m + 1))) * den +
          den * 2 ^ b = 2 * (m + 1) * (den * 2 ^ b) := by
        rw [grains_pred (by omega) hinside, grains_binade hplace hb']
        ring
      have hlow := h.low
      exact ⟨by omega, fun heq => h.even (.inl (by omega))⟩
    · -- The first place of a binade: the magnitude before it is nearer.
      have hfirst : perBinade ≤ num / (den * 2 ^ b) := hb.resolve_left fun h => hinside (.inl h)
      have hfloor : (m + 1) * (den * 2 ^ b) ≤ num :=
        (Nat.le_div_iff_mul_le (Nat.mul_pos hden (Nat.two_pow_pos b))).mp (by omega)
      have hhere : grains (b * perBinade + (m + 1)) * den = (m + 1) * (den * 2 ^ b) :=
        grains_mul hplace hb'
      have hbefore : grains (b * perBinade + (m + 1) - 1) * den <
          grains (b * perBinade + (m + 1)) * den :=
        Nat.mul_lt_mul_of_pos_right (grains_strictMono (by omega)) hden
      rw [Nat.add_mul]
      omega

/-- A quotient that is rounded to a place of its binade rounds to the magnitude there. -/
theorem rounds_place (hden : 0 < den) (hplace : r ≤ 2 * perBinade)
    (hb : b = 0 ∨ perBinade ≤ num / (den * 2 ^ b)) (hr : num / (den * 2 ^ b) ≤ r)
    (h : Nearest num (den * 2 ^ b) r) : Rounds num den (b * perBinade + r) := by
  have hb' : b = 0 ∨ perBinade ≤ r := by omega
  have hrank : (b * perBinade + r) % 2 = r % 2 := by
    rw [perBinade_eq]
    omega
  have hhere : grains (b * perBinade + r) * den = r * (den * 2 ^ b) := grains_mul hplace hb'
  have hbehind : (r + 1) * (den * 2 ^ b) ≤ grains (b * perBinade + r + 1) * den := by
    calc (r + 1) * (den * 2 ^ b) = (r + 1) * 2 ^ b * den := by ring
      _ ≤ _ := Nat.mul_le_mul_right den (le_grains_succ hplace hb')
  have hup : (2 * r + 1) * (den * 2 ^ b) ≤
      (grains (b * perBinade + r) + grains (b * perBinade + r + 1)) * den := by
    calc (2 * r + 1) * (den * 2 ^ b) = r * (den * 2 ^ b) + (r + 1) * (den * 2 ^ b) := by ring
      _ ≤ grains (b * perBinade + r) * den + grains (b * perBinade + r + 1) * den :=
        Nat.add_le_add hhere.ge hbehind
      _ = _ := (Nat.add_mul _ _ _).symm
  obtain ⟨hlow, htie⟩ := midpoint_le hden hplace hb hr h
  refine ⟨hlow, h.high.trans hup, ?_⟩
  rw [hrank]
  rintro (heq | heq)
  · exact htie heq
  · exact h.even (.inr (Nat.le_antisymm h.high (heq ▸ hup)))

end

/-- `nearest` finds a rank that the quotient rounds to, unless that is infinite. -/
theorem rounds_nearest (num : Nat) {den : Nat} (hden : 0 < den) :
    ∃ n, nearest num den = min overflow n ∧ Rounds num den n := by
  refine ⟨_, rfl, ?_⟩
  show Rounds num den (((num / den).log2 - 52) * perBinade +
    roundDiv num (den * 2 ^ ((num / den).log2 - 52)))
  obtain ⟨hbelow, habove⟩ := binade_spec (q := num / den)
  rw [Nat.div_div_eq_div_mul] at hbelow habove
  generalize (num / den).log2 - 52 = b at *
  have hplace : 0 < den * 2 ^ b := Nat.mul_pos hden (Nat.two_pow_pos b)
  obtain ⟨hle, hge⟩ := roundDiv_bounds num (den * 2 ^ b)
  exact rounds_place hden (by omega) habove hle (nearest_roundDiv num hplace)

theorem nearest_of_rounds {num den k : Nat} (hden : 0 < den) (h : Rounds num den k)
    (hk : k < overflow) : nearest num den = k := by
  obtain ⟨n, hnearest, hn⟩ := rounds_nearest num hden
  rw [hnearest, h.unique hden hn]
  exact Nat.min_eq_right hk.le

end PocketCalculator.Magnitude
