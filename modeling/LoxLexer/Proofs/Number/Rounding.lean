import LoxLexer.Number.Numeral
import LoxLexer.Proofs.Number.Nearest
import Mathlib.Algebra.Order.Field.Power
import Mathlib.Tactic.Linarith
import Mathlib.Tactic.NormNum
import Mathlib.Tactic.Positivity

/-!
What it is for a double to be a number, rounded.

`Rounds` says it of doubles by their value: none is nearer, a tie goes to an even significand, and
there are thresholds to zero and to infinity. A number is rounded to one double, `Rounds.unique`.
The quotient is rounded above a magnitude if it lies above the midpoint to the next one,
`lt_nearestUnbounded_iff`, so `nearest` rounds: `rounds_nearest`.
-/

namespace LoxLexer

namespace Binary64

/-! ### Midpoints -/

/-- Rounding goes beyond a magnitude from the midpoint behind it on. At the midpoint it does if the
magnitude is odd. -/
theorem lt_nearestUnbounded_iff (num k : Nat) {den : Nat} (hd : 0 < den) :
    k < nearestUnbounded num den ↔
      (units k + units (k + 1)) * den < 2 * (one * num) ∨
        (units k + units (k + 1)) * den = 2 * (one * num) ∧ k % 2 = 1 := by
  have near := dist_nearestUnbounded_le num k hd
  have near' := dist_nearestUnbounded_le num (k + 1) hd
  have le_iff {i j : Nat} : units i * den ≤ units j * den ↔ i ≤ j := by
    rw [Nat.mul_le_mul_right_iff hd, units_strictMono.le_iff_le]
  have step : units k * den < units (k + 1) * den := by
    rw [← Nat.not_le, le_iff]
    omega
  rw [Nat.add_mul]
  by_cases above : k < nearestUnbounded num den
  · have reached : units (k + 1) * den ≤ units (nearestUnbounded num den) * den :=
      le_iff.mpr above
    have half : units k * den + units (k + 1) * den ≤ 2 * (one * num) := by
      unfold Nat.dist at near
      omega
    refine iff_of_true above ?_
    rcases half.lt_or_eq with beyond | tie
    · exact Or.inl beyond
    · have same : Nat.dist (one * num) (units k * den) =
          Nat.dist (one * num) (units (nearestUnbounded num den) * den) := by
        unfold Nat.dist at near' ⊢
        omega
      have last : nearestUnbounded num den ≤ k + 1 := le_iff.mp (by
        unfold Nat.dist at near'
        omega)
      have even := nearestUnbounded_even hd above.ne same
      exact Or.inr ⟨tie, by omega⟩
  · have kept : units (nearestUnbounded num den) * den ≤ units k * den :=
      le_iff.mpr (Nat.not_lt.mp above)
    have half : 2 * (one * num) ≤ units k * den + units (k + 1) * den := by
      unfold Nat.dist at near'
      omega
    refine iff_of_false above ?_
    rintro (beyond | ⟨tie, odd⟩)
    · omega
    · have same : Nat.dist (one * num) (units (k + 1) * den) =
          Nat.dist (one * num) (units (nearestUnbounded num den) * den) := by
        unfold Nat.dist at near ⊢
        omega
      have first : k ≤ nearestUnbounded num den := le_iff.mp (by
        unfold Nat.dist at near
        omega)
      have even := nearestUnbounded_even hd (by omega) same
      omega

/-! ### Values -/

/-- The significand of a finite double. Below the second binade it has no leading one. -/
def significand (x : Binary64) : Nat :=
  if x.magnitude < binade then x.magnitude else binade + x.magnitude % binade

/-- The power of two that the significand counts. -/
def power (x : Binary64) : ℤ := (x.magnitude / binade - 1 : Nat) - 1074

/-- The number that a finite double is. -/
def value (x : Binary64) : ℚ := (if x.negative then -1 else 1) * (x.significand * 2 ^ x.power)

lemma one_eq : (one : ℚ) = 2 ^ 1074 := by
  unfold one
  generalize 1074 = n
  rw [Nat.pow_eq, Nat.cast_pow, Nat.cast_ofNat]

lemma significand_mod_two (x : Binary64) : x.significand % 2 = x.magnitude % 2 := by
  unfold significand binade
  split <;> omega

/-- In units of the least positive double. -/
lemma significand_mul (x : Binary64) :
    (x.significand : ℚ) * 2 ^ x.power = (units x.magnitude : ℚ) / one := by
  have parts : units x.magnitude = x.significand * 2 ^ (x.magnitude / binade - 1) := by
    unfold units significand
    split
    · next low => rw [Nat.div_eq_of_lt low, Nat.zero_sub, Nat.pow_zero, Nat.mul_one]
    · rw [Nat.shiftLeft_eq]
  rw [power, zpow_sub₀ two_ne_zero, zpow_natCast, zpow_ofNat, parts, one_eq, Nat.cast_mul,
    Nat.cast_pow, Nat.cast_ofNat, mul_div_assoc]

lemma value_of_positive {x : Binary64} (h : x.negative = false) :
    x.value = (units x.magnitude : ℚ) / one := by
  rw [value, h, significand_mul]
  simp

lemma value_of_negative {x : Binary64} (h : x.negative = true) :
    x.value = -((units x.magnitude : ℚ) / one) := by
  rw [value, h, significand_mul]
  simp

/-! ### Rounding -/

/-- The double `x` is the number `q`, which is not negative, rounded. -/
structure Rounds (q : ℚ) (x : Binary64) : Prop where
  negative : x.negative = false
  isNaN : x.isNaN = false
  /-- The midpoint between the last finite double and the power of two behind it. -/
  overflow : x.bits = 0x7FF0000000000000 ↔ 2 ^ 1024 - 2 ^ 970 ≤ q
  /-- The midpoint between zero and the least positive double. -/
  underflow : x.bits = 0 ↔ q ≤ 1 / 2 ^ 1075
  nearest : x.isFinite → ∀ y : Binary64, y.isFinite → |q - x.value| ≤ |q - y.value|
  even : x.isFinite → ∀ y : Binary64, y.isFinite → y.value ≠ x.value →
    |q - y.value| = |q - x.value| → x.significand % 2 = 0

lemma cast_dist (a b : Nat) : (Nat.dist a b : ℚ) = |(a : ℚ) - b| := by
  rcases le_total a b with h | h
  · rw [Nat.dist_eq_sub_of_le h, Nat.cast_sub h, abs_sub_comm, abs_of_nonneg (by simpa using h)]
  · rw [Nat.dist_eq_sub_of_le_right h, Nat.cast_sub h, abs_of_nonneg (by simpa using h)]

/-- Distances of quotients are those that rounding compares. -/
lemma abs_sub_units (num k : Nat) {den : Nat} (hd : 0 < den) :
    |(num : ℚ) / den - units k / one| = Nat.dist (one * num) (units k * den) / (one * den) := by
  have pos : (0 : ℚ) < one := Nat.cast_pos.mpr one_pos
  have pos' : (0 : ℚ) < den := Nat.cast_pos.mpr hd
  rw [cast_dist, ← abs_of_pos (mul_pos pos pos'), ← abs_div, Nat.cast_mul, Nat.cast_mul]
  congr 1
  field_simp

/-- Without its sign a double is not farther from a number that has none. -/
lemma abs_sub_units_le {q : ℚ} (hq : 0 ≤ q) (y : Binary64) :
    |q - units y.magnitude / one| ≤ |q - y.value| := by
  have nonneg : (0 : ℚ) ≤ units y.magnitude / one := by positivity
  cases sign : y.negative with
  | false => rw [value_of_positive sign]
  | true =>
    have above : 0 ≤ q - -(units y.magnitude / one : ℚ) := by linarith
    rw [value_of_negative sign, abs_of_nonneg above, abs_le]
    constructor <;> linarith

lemma isFinite_iff {x : Binary64} : x.isFinite = true ↔ x.magnitude < infinity :=
  decide_eq_true_iff

lemma bits_of_positive {x : Binary64} (h : x.negative = false) : x.bits = x.magnitude := by
  simp [bits, h]

/-- A midpoint between two magnitudes, as a number. -/
lemma half_div_one (a : Nat) : (a : ℚ) / 2 ^ 1075 = a / (2 * one : Nat) := by
  have next (n : Nat) : (2 : ℚ) ^ (n + 1) = 2 * 2 ^ n := by ring
  rw [Nat.cast_mul, one_eq, Nat.cast_ofNat]
  exact congrArg _ (next 1074)

lemma half_le_iff (num a : Nat) {den : Nat} (hd : 0 < den) :
    a * den ≤ 2 * (one * num) ↔ (a : ℚ) / 2 ^ 1075 ≤ num / den := by
  have pos : 0 < 2 * one := Nat.mul_pos two_pos one_pos
  rw [half_div_one, div_le_div_iff₀ (Nat.cast_pos.mpr pos) (Nat.cast_pos.mpr hd), ← Nat.mul_assoc,
    Nat.mul_comm (2 * one)]
  exact_mod_cast Iff.rfl

lemma le_half_iff (num a : Nat) {den : Nat} (hd : 0 < den) :
    2 * (one * num) ≤ a * den ↔ (num : ℚ) / den ≤ a / 2 ^ 1075 := by
  have pos : 0 < 2 * one := Nat.mul_pos two_pos one_pos
  rw [half_div_one, div_le_div_iff₀ (Nat.cast_pos.mpr hd) (Nat.cast_pos.mpr pos), ← Nat.mul_assoc,
    Nat.mul_comm (2 * one)]
  exact_mod_cast Iff.rfl

lemma infinity_le_nearestUnbounded_iff (num : Nat) {den : Nat} (hd : 0 < den) :
    infinity ≤ nearestUnbounded num den ↔ (2 ^ 1024 - 2 ^ 970 : ℚ) ≤ (num : ℚ) / den := by
  -- the last finite double, and the power of two behind it, in units
  have last : units (binade * 2045 + (2 * binade - 1)) = (2 * binade - 1) * 2 ^ 2045 :=
    units_add (by omega) (by decide)
  have behind : units (binade * 2045 + 2 * binade) = 2 * binade * 2 ^ 2045 :=
    units_add le_rfl (by decide)
  have midpoint := lt_nearestUnbounded_iff num (binade * 2045 + (2 * binade - 1)) hd
  have odd : (binade * 2045 + (2 * binade - 1)) % 2 = 1 := by decide
  have next : binade * 2045 + (2 * binade - 1) + 1 = binade * 2045 + 2 * binade := by decide
  have sum (n : Nat) :
      (2 * binade - 1) * n + 2 * binade * n = 0x3FFFFFFFFFFFFF * n := (Nat.add_mul _ _ _).symm
  rw [next, last, behind, odd, sum, eq_self, and_true, ← Nat.le_iff_lt_or_eq,
    half_le_iff _ _ hd] at midpoint
  have scale (m n : Nat) :
      ((0x3FFFFFFFFFFFFF * 2 ^ (n + m) : Nat) : ℚ) / 2 ^ m = 2 ^ (n + 54) - 2 ^ n := by
    rw [div_eq_iff (by positivity)]
    push_cast
    ring
  have threshold := scale 1075 970
  have sum' : 970 + 1075 = 2045 := rfl
  have sum'' : 970 + 54 = 1024 := rfl
  have top : infinity = binade * 2045 + (2 * binade - 1) + 1 := by decide
  rw [sum', sum''] at threshold
  rw [top, Nat.succ_le_iff, midpoint, threshold]

lemma nearestUnbounded_eq_zero_iff (num : Nat) {den : Nat} (hd : 0 < den) :
    nearestUnbounded num den = 0 ↔ (num : ℚ) / den ≤ 1 / 2 ^ 1075 := by
  have midpoint := lt_nearestUnbounded_iff num 0 hd
  have zero : units 0 = 0 := rfl
  have unit : units (0 + 1) = 1 := rfl
  have half := le_half_iff num 1 hd
  rw [Nat.cast_one, Nat.one_mul] at half
  rw [zero, unit, Nat.zero_add, Nat.one_mul] at midpoint
  rw [← half]
  omega

lemma nearest_eq_zero_iff (num : Nat) {den : Nat} (hd : 0 < den) :
    nearest num den = 0 ↔ (num : ℚ) / den ≤ 1 / 2 ^ 1075 := by
  have pos : 0 < infinity := by decide
  rw [← nearestUnbounded_eq_zero_iff num hd, nearest_eq_min]
  omega

lemma nearest_eq_infinity_iff (num : Nat) {den : Nat} (hd : 0 < den) :
    nearest num den = infinity ↔ (2 ^ 1024 - 2 ^ 970 : ℚ) ≤ (num : ℚ) / den := by
  rw [← infinity_le_nearestUnbounded_iff num hd, nearest_eq_min]
  omega

lemma nearestUnbounded_of_lt {num den : Nat} (h : nearest num den < infinity) :
    nearestUnbounded num den = nearest num den := by
  rw [nearest_eq_min] at h ⊢
  omega

/-- **Rounding**: the double that is nearest to a fraction is the fraction, rounded. -/
theorem rounds_nearest {num den : Nat} (hd : 0 < den) {x : Binary64} (sign : x.negative = false)
    (nearest_eq : x.magnitude = nearest num den) : Rounds (num / den) x := by
  have bits := bits_of_positive sign
  have value := value_of_positive sign
  have nonneg : (0 : ℚ) ≤ num / den := by positivity
  rw [nearest_eq] at bits value
  have near (finite : x.isFinite) (k : Nat) :
      |(num / den : ℚ) - x.value| ≤ |(num / den : ℚ) - units k / one| := by
    rw [isFinite_iff, nearest_eq] at finite
    rw [value, ← nearestUnbounded_of_lt finite, abs_sub_units _ _ hd, abs_sub_units _ _ hd]
    have := dist_nearestUnbounded_le num k hd
    gcongr
  refine ⟨sign, ?_, ?_, ?_, fun finite y _ => ?_, fun finite y _ other tie => ?_⟩
  · have le := nearest_le num den
    rw [← nearest_eq] at le
    simpa [isNaN] using le
  · rw [bits]
    exact nearest_eq_infinity_iff num hd
  · rw [bits]
    exact nearest_eq_zero_iff num hd
  · exact (near finite y.magnitude).trans (abs_sub_units_le nonneg y)
  · rw [significand_mod_two, nearest_eq]
    by_cases same : y.magnitude = x.magnitude
    · -- only the sign of `y` is another one, so both would have to be zero
      have negative : y.negative = true := by
        by_contra positive
        rw [Bool.not_eq_true] at positive
        exact other (by rw [Binary64.ext (positive.trans sign.symm) same])
      have opposite : y.value = -x.value := by
        rw [value_of_negative negative, value_of_positive sign, same]
      have zero : x.value ≠ 0 := fun h => other (by rw [opposite, h, neg_zero])
      rw [opposite, abs_eq_abs] at tie
      rcases tie with tie | tie
      · exact absurd (by linarith) zero
      · have q_zero : (num / den : ℚ) = 0 := by linarith
        have le := near finite 0
        rw [q_zero, show units 0 = 0 from rfl] at le
        exact absurd (by simpa using le) zero
    · have tie : |(num / den : ℚ) - units y.magnitude / one| = |(num / den : ℚ) - x.value| :=
        le_antisymm ((abs_sub_units_le nonneg y).trans tie.le) (near finite y.magnitude)
      rw [isFinite_iff, nearest_eq] at finite
      rw [nearest_eq, ← nearestUnbounded_of_lt finite] at same
      have pos : (0 : ℚ) < one * den := mul_pos (Nat.cast_pos.mpr one_pos) (Nat.cast_pos.mpr hd)
      rw [value, ← nearestUnbounded_of_lt finite, abs_sub_units _ _ hd, abs_sub_units _ _ hd,
        div_left_inj' pos.ne', Nat.cast_inj] at tie
      rw [← nearestUnbounded_of_lt finite]
      exact nearestUnbounded_even hd same tie

/-! ### One double at most -/

lemma Rounds.finite_or_bits {q : ℚ} {x : Binary64} (h : Rounds q x) :
    x.isFinite ∨ x.bits = 0x7FF0000000000000 := by
  rw [bits_of_positive h.negative, isFinite_iff]
  have le : x.magnitude ≤ infinity := by simpa [Binary64.isNaN] using h.isNaN
  exact le.lt_or_eq

/-- Of two doubles that a number is rounded to neither is below the other. A tie would leave both
with an even significand, and then the one between them would be nearer. -/
lemma Rounds.not_lt {q : ℚ} {x y : Binary64} (hx : Rounds q x) (hy : Rounds q y)
    (finite : x.isFinite) (finite' : y.isFinite) : ¬ x.magnitude < y.magnitude := by
  intro lt
  have pos : (0 : ℚ) < one := Nat.cast_pos.mpr one_pos
  have value_lt {i j : Nat} (h : i < j) : (units i / one : ℚ) < units j / one := by
    have := units_strictMono h
    gcongr
  have below : x.value < y.value := by
    rw [value_of_positive hx.negative, value_of_positive hy.negative]
    exact value_lt lt
  have tie : |q - x.value| = |q - y.value| :=
    le_antisymm (hx.nearest finite y finite') (hy.nearest finite' x finite)
  have even := hx.even finite y finite' below.ne' tie.symm
  have even' := hy.even finite' x finite below.ne tie
  rw [significand_mod_two] at even even'
  let z : Binary64 := ⟨false, x.magnitude + 1, by have := y.magnitude_lt; omega⟩
  have finite'' : z.isFinite := by
    rw [isFinite_iff] at finite' ⊢
    exact Nat.lt_of_le_of_lt lt finite'
  have above : x.value < z.value := by
    rw [value_of_positive hx.negative, value_of_positive rfl]
    exact value_lt (Nat.lt_succ_self _)
  have under : z.value < y.value := by
    rw [value_of_positive hy.negative, value_of_positive rfl]
    exact value_lt (by omega : x.magnitude + 1 < y.magnitude)
  have nearer := hx.nearest finite z finite''
  have middle : q - x.value = -(q - y.value) := by
    refine (abs_eq_abs.mp tie).resolve_left fun same => ?_
    linarith
  rw [abs_of_pos (by linarith : 0 < q - x.value), le_abs] at nearer
  rcases nearer with h | h
  · linarith
  · linarith

/-- A number is rounded to one double. -/
theorem Rounds.unique {q : ℚ} {x y : Binary64} (hx : Rounds q x) (hy : Rounds q y) : x = y := by
  rcases hx.finite_or_bits with finite | infinite
  · rcases hy.finite_or_bits with finite' | infinite'
    · have le := Nat.not_lt.mp (hx.not_lt hy finite finite')
      have ge := Nat.not_lt.mp (hy.not_lt hx finite' finite)
      exact Binary64.ext (hx.negative.trans hy.negative.symm) (ge.antisymm le)
    · have infinite := hx.overflow.mpr (hy.overflow.mp infinite')
      exact bits_inj.mp (infinite.trans infinite'.symm)
  · have infinite' := hy.overflow.mpr (hx.overflow.mp infinite)
    exact bits_inj.mp (infinite.trans infinite'.symm)

end Binary64

end LoxLexer
