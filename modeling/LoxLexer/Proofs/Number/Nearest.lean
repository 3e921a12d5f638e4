import LoxLexer.Number.Nearest
import Mathlib.Data.Nat.Dist
import Mathlib.Data.Rat.Lemmas
import Mathlib.Order.Monotone.Basic
import Mathlib.Tactic.Ring
import Mathlib.Tactic.FieldSimp

/-!
Rounding to the nearest double.

A magnitude is `binade * s + m`, its value then `m * 2 ^ s` units, `units_add`. Rounding takes
the `s` of the quotient's own binade and the nearest `m`, and no other magnitude comes nearer
to the quotient, `dist_nearestUnbounded_le`; if one comes as near, the even one of both is taken,
`nearestUnbounded_even`. So whatever is within half a unit of a double is read as that double,
`nearest_eq`.
-/

namespace LoxLexer

/-! ### Rounding a quotient -/

lemma dist_roundDiv_le (a k : Nat) {d : Nat} (hd : 0 < d) :
    Nat.dist a (roundDiv a d * d) ≤ Nat.dist a (k * d) := by
  have whole : a / d * d + a % d = a := Nat.div_add_mod' a d
  have part : a % d < d := Nat.mod_lt a hd
  have side : k * d ≤ a / d * d ∨ (a / d + 1) * d ≤ k * d := by
    rcases Nat.lt_or_ge (a / d) k with h | h
    · exact Or.inr (Nat.mul_le_mul_right d h)
    · exact Or.inl (Nat.mul_le_mul_right d h)
  have next : (a / d + 1) * d = a / d * d + d := Nat.succ_mul _ _
  unfold roundDiv Nat.dist
  dsimp only
  split <;> omega

/-- Another multiple that comes as near leaves the even one. -/
lemma roundDiv_even {a k d : Nat} (hd : 0 < d) (ne : k ≠ roundDiv a d)
    (tie : Nat.dist a (k * d) = Nat.dist a (roundDiv a d * d)) : roundDiv a d % 2 = 0 := by
  have whole : a / d * d + a % d = a := Nat.div_add_mod' a d
  have part : a % d < d := Nat.mod_lt a hd
  have next : (a / d + 1) * d = a / d * d + d := Nat.succ_mul _ _
  have side : k * d + d ≤ a / d * d ∨ k = a / d ∨ k = a / d + 1 ∨ a / d * d + 2 * d ≤ k * d := by
    rcases Nat.lt_or_ge k (a / d) with below | above
    · have := Nat.mul_le_mul_right d below
      rw [Nat.succ_mul] at this
      exact Or.inl this
    · rcases Nat.lt_or_ge (a / d + 1) k with beyond | near
      · have := Nat.mul_le_mul_right d beyond
        rw [Nat.succ_mul, Nat.succ_mul] at this
        omega
      · omega
  unfold Nat.dist at tie
  unfold roundDiv at ne tie ⊢
  dsimp only at ne tie ⊢
  by_cases down : 2 * (a % d) < d ∨ 2 * (a % d) = d ∧ a / d % 2 = 0
  · rw [if_pos down] at ne tie ⊢
    rcases side with below | rfl | rfl | above
    · omega
    · exact absurd rfl ne
    · omega
    · omega
  · rw [if_neg down] at ne tie ⊢
    rcases side with below | rfl | rfl | above
    · omega
    · omega
    · exact absurd rfl ne
    · omega

lemma le_roundDiv (a d : Nat) : a / d ≤ roundDiv a d := by
  unfold roundDiv
  dsimp only
  split <;> omega

lemma roundDiv_le (a d : Nat) : roundDiv a d ≤ a / d + 1 := by
  unfold roundDiv
  dsimp only
  split <;> omega

lemma roundDiv_mul_right (a d : Nat) {c : Nat} (hc : 0 < c) :
    roundDiv (a * c) (d * c) = roundDiv a d := by
  have lt : 2 * (a % d * c) < d * c ↔ 2 * (a % d) < d := by
    rw [← Nat.mul_assoc, Nat.mul_lt_mul_right hc]
  have eq : 2 * (a % d * c) = d * c ↔ 2 * (a % d) = d := by
    rw [← Nat.mul_assoc, Nat.mul_left_inj hc.ne']
  unfold roundDiv
  simp only [Nat.mul_div_mul_right _ _ hc, Nat.mul_mod_mul_right, lt, eq]

namespace Binary64

lemma one_pos : 0 < one := by
  unfold one
  generalize 1074 = n
  exact Nat.two_pow_pos n

lemma binade_pos : 0 < binade := by decide

/-! ### The doubles in order -/

/-- The value of a magnitude, taken apart into a binade and a place in it. -/
theorem units_add {s m : Nat} (hm : m ≤ 2 * binade) (hs : s = 0 ∨ binade ≤ m) :
    units (binade * s + m) = m * 2 ^ s := by
  rcases Nat.lt_or_ge m binade with low | high
  · obtain rfl : s = 0 := hs.resolve_right (by omega)
    simp [units, low]
  · have apart (t r : Nat) (hr : r < binade) :
        units (binade * (t + 1) + r) = (binade + r) * 2 ^ t := by
      have quotient : (binade * (t + 1) + r) / binade = t + 1 := by
        rw [Nat.mul_add_div binade_pos, Nat.div_eq_of_lt hr, Nat.add_zero]
      have remainder : (binade * (t + 1) + r) % binade = r := by
        rw [Nat.mul_add_mod, Nat.mod_eq_of_lt hr]
      have beyond : ¬ binade * (t + 1) + r < binade := by
        rw [Nat.mul_succ]
        omega
      rw [units, if_neg beyond, quotient, remainder, Nat.shiftLeft_eq, Nat.add_sub_cancel]
    rcases Nat.lt_or_ge m (2 * binade) with inside | last
    · have := apart s (m - binade) (by omega)
      rwa [Nat.mul_succ, Nat.add_assoc, Nat.add_sub_cancel' high] at this
    · -- the end of the binade is the beginning of the next one
      obtain rfl : m = 2 * binade := by omega
      have := apart (s + 1) 0 binade_pos
      rw [show binade * s + 2 * binade = binade * (s + 1 + 1) + 0 by ring, this]
      ring

lemma exists_place (k : Nat) :
    ∃ s m, k = binade * s + m ∧ m < 2 * binade ∧ (s = 0 ∨ binade ≤ m) := by
  have split : binade * (k / binade) + k % binade = k := Nat.div_add_mod k binade
  have part : k % binade < binade := Nat.mod_lt k binade_pos
  rcases Nat.eq_zero_or_pos (k / binade) with h | h
  · refine ⟨0, k, by simp, ?_, Or.inl rfl⟩
    rw [h] at split
    omega
  · obtain ⟨s, hs⟩ : ∃ s, k / binade = s + 1 := ⟨_, (Nat.succ_pred_eq_of_pos h).symm⟩
    refine ⟨s, binade + k % binade, ?_, by omega, Or.inr (by omega)⟩
    rw [hs, Nat.mul_succ] at split
    omega

theorem units_strictMono : StrictMono units := by
  refine strictMono_nat_of_lt_succ fun k => ?_
  obtain ⟨s, m, rfl, hm, hs⟩ := exists_place k
  rw [Nat.add_assoc, units_add hm.le hs, units_add (by omega) (by omega)]
  exact Nat.mul_lt_mul_of_pos_right (Nat.lt_succ_self m) (Nat.two_pow_pos s)

/-! ### Nearest -/

lemma coarseness_spec (q : Nat) :
    q < 2 * binade * 2 ^ coarseness q ∧ (coarseness q = 0 ∨ binade * 2 ^ coarseness q ≤ q) := by
  have binade_eq : binade = 2 ^ 52 := by decide
  unfold coarseness
  split
  · next h => exact ⟨by simpa using h, Or.inl rfl⟩
  · next h =>
    have ne : q ≠ 0 := by
      rintro rfl
      exact h (by decide)
    have log : 53 ≤ q.log2 := (Nat.le_log2 ne).mpr (by rw [binade_eq] at h; omega)
    have low : 2 ^ q.log2 ≤ q := Nat.log2_self_le ne
    have high : q < 2 ^ (q.log2 + 1) := Nat.lt_log2_self
    constructor
    · calc q < 2 ^ (q.log2 + 1) := high
        _ = 2 ^ (1 + 52 + (q.log2 - 52)) := by congr 1; omega
        _ = 2 * binade * 2 ^ (q.log2 - 52) := by rw [binade_eq, pow_add, pow_add, pow_one]
    · refine Or.inr (le_trans (le_of_eq ?_) low)
      rw [binade_eq, ← pow_add]
      congr 1
      omega

/-- The rounded quotient before infinity bounds it. -/
def nearestUnbounded (num den : Nat) : Nat :=
  let s := coarseness (one * num / den)
  binade * s + roundDiv (one * num) (den <<< s)

lemma nearest_eq_min (num den : Nat) :
    nearest num den = min (nearestUnbounded num den) infinity := rfl

/-- The place of the rounded quotient. -/
lemma nearestUnbounded_spec (num : Nat) {den : Nat} (hd : 0 < den) :
    ∃ s, (s = 0 ∨ binade * 2 ^ s * den ≤ one * num) ∧
      nearestUnbounded num den = binade * s + roundDiv (one * num) (den * 2 ^ s) ∧
      units (nearestUnbounded num den) * den =
        roundDiv (one * num) (den * 2 ^ s) * (den * 2 ^ s) := by
  obtain ⟨high, low⟩ := coarseness_spec (one * num / den)
  have shifted : nearestUnbounded num den =
      binade * coarseness (one * num / den) +
        roundDiv (one * num) (den * 2 ^ coarseness (one * num / den)) := by
    rw [nearestUnbounded, Nat.shiftLeft_eq]
  rw [shifted]
  generalize coarseness (one * num / den) = s at high low ⊢
  have quotient : one * num / (den * 2 ^ s) = one * num / den / 2 ^ s :=
    (Nat.div_div_eq_div_mul _ _ _).symm
  have low' : s = 0 ∨ binade ≤ one * num / (den * 2 ^ s) := by
    rw [quotient, Nat.le_div_iff_mul_le (Nat.two_pow_pos s)]
    exact low
  have high' : one * num / (den * 2 ^ s) < 2 * binade := by
    rw [quotient, Nat.div_lt_iff_lt_mul (Nat.two_pow_pos s)]
    exact high
  have ge := le_roundDiv (one * num) (den * 2 ^ s)
  have le := roundDiv_le (one * num) (den * 2 ^ s)
  refine ⟨s, low.imp_right fun h => (Nat.le_div_iff_mul_le hd).mp h, rfl, ?_⟩
  rw [units_add (by omega) (by omega)]
  ring

/-- Every magnitude is one of the values between which the rounding of a quotient chooses, or
lies below one of them that the quotient has reached. -/
lemma exists_multiple (k : Nat) {v den s : Nat} (low : s = 0 ∨ binade * 2 ^ s * den ≤ v) :
    ∃ j, units k * den = j * (den * 2 ^ s) ∨
      units k * den < j * (den * 2 ^ s) ∧ j * (den * 2 ^ s) ≤ v := by
  obtain ⟨t, m, rfl, hm, ht⟩ := exists_place k
  rw [units_add hm.le ht]
  rcases Nat.lt_or_ge t s with coarse | fine
  · -- the magnitude lies below the binade of the quotient, whose first double is nearer
    have below : m * 2 ^ t * den ≤ binade * (den * 2 ^ s) := by
      calc m * 2 ^ t * den ≤ 2 * binade * 2 ^ t * den :=
            Nat.mul_le_mul_right _ (Nat.mul_le_mul_right _ hm.le)
        _ = binade * (den * 2 ^ (t + 1)) := by ring
        _ ≤ binade * (den * 2 ^ s) :=
            Nat.mul_le_mul_left _ (Nat.mul_le_mul_left _ (Nat.pow_le_pow_right (by omega) coarse))
    have reached := low.resolve_left (by omega)
    rw [Nat.mul_right_comm, Nat.mul_assoc] at reached
    exact ⟨binade, below.eq_or_lt.imp_right fun lt => ⟨lt, reached⟩⟩
  · refine ⟨m * 2 ^ (t - s), Or.inl ?_⟩
    rw [← Nat.sub_add_cancel fine, pow_add, Nat.add_sub_cancel]
    ring

/-- **Nearest**: no magnitude comes nearer to a quotient than the rounded one. -/
theorem dist_nearestUnbounded_le (num k : Nat) {den : Nat} (hd : 0 < den) :
    Nat.dist (one * num) (units (nearestUnbounded num den) * den) ≤
      Nat.dist (one * num) (units k * den) := by
  obtain ⟨s, low, -, value⟩ := nearestUnbounded_spec num hd
  have pos : 0 < den * 2 ^ s := Nat.mul_pos hd (Nat.two_pow_pos s)
  obtain ⟨j, place⟩ := exists_multiple k low
  have near := dist_roundDiv_le (one * num) j pos
  rw [value]
  rcases place with on | ⟨below, reached⟩
  · rwa [on]
  · refine near.trans ?_
    unfold Nat.dist
    omega

/-- **Ties**: if another magnitude comes as near, the rounded one is even. -/
theorem nearestUnbounded_even {num k den : Nat} (hd : 0 < den) (ne : k ≠ nearestUnbounded num den)
    (tie : Nat.dist (one * num) (units k * den) =
      Nat.dist (one * num) (units (nearestUnbounded num den) * den)) :
    nearestUnbounded num den % 2 = 0 := by
  obtain ⟨s, low, place, value⟩ := nearestUnbounded_spec num hd
  have pos : 0 < den * 2 ^ s := Nat.mul_pos hd (Nat.two_pow_pos s)
  obtain ⟨j, on⟩ := exists_multiple k low
  have near := dist_roundDiv_le (one * num) j pos
  -- no magnitude below the choices comes as near as the best of them
  have on : units k * den = j * (den * 2 ^ s) := by
    refine on.resolve_right fun ⟨below, reached⟩ => ?_
    rw [value] at tie
    unfold Nat.dist at tie near
    omega
  have other : j ≠ roundDiv (one * num) (den * 2 ^ s) := by
    rintro rfl
    rw [← value] at on
    exact ne (units_strictMono.injective (Nat.eq_of_mul_eq_mul_right hd on))
  rw [value, on] at tie
  have even := roundDiv_even pos other tie
  have binade_even : binade % 2 = 0 := by decide
  rw [place, Nat.add_mod, Nat.mul_mod, binade_even, even, Nat.zero_mul]

/-- Within half a unit of a double a quotient is rounded to it. -/
theorem nearest_eq {num den k : Nat} (hk : k ≤ infinity)
    (near : 2 * Nat.dist (one * num) (units k * den) < den) : nearest num den = k := by
  have le := dist_nearestUnbounded_le num k (show 0 < den by omega)
  have triangle := Nat.dist.triangle_inequality (units (nearestUnbounded num den) * den)
    (one * num) (units k * den)
  rw [Nat.dist_comm _ (one * num), Nat.dist_mul_right] at triangle
  have close : Nat.dist (units (nearestUnbounded num den)) (units k) = 0 := by
    by_contra far
    have := Nat.le_mul_of_pos_left den (Nat.pos_of_ne_zero far)
    omega
  rw [nearest_eq_min, units_strictMono.injective (Nat.eq_of_dist_eq_zero close)]
  exact Nat.min_eq_left hk

lemma nearest_mul_right (num den : Nat) {c : Nat} (hc : 0 < c) :
    nearest (num * c) (den * c) = nearest num den := by
  have numerator : one * (num * c) = one * num * c := (Nat.mul_assoc _ _ _).symm
  have denominator (s : Nat) : (den * c) <<< s = den <<< s * c := by
    rw [Nat.shiftLeft_eq, Nat.shiftLeft_eq, Nat.mul_right_comm]
  unfold nearest
  simp only [numerator, denominator, Nat.mul_div_mul_right _ _ hc, roundDiv_mul_right _ _ hc]

/-- Only the value of a fraction counts. -/
theorem nearest_congr {a b c d : Nat} (hb : 0 < b) (hd : 0 < d)
    (h : (a : ℚ) / b = (c : ℚ) / d) : nearest a b = nearest c d := by
  have cross : a * d = c * b := by
    rw [div_eq_div_iff (Nat.cast_ne_zero.mpr hb.ne') (Nat.cast_ne_zero.mpr hd.ne')] at h
    exact_mod_cast h
  calc nearest a b = nearest (a * d) (b * d) := (nearest_mul_right a b hd).symm
    _ = nearest (c * b) (d * b) := by rw [cross, Nat.mul_comm b d]
    _ = nearest c d := nearest_mul_right c d hb

end Binary64

end LoxLexer
