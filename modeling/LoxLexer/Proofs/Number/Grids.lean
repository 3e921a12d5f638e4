import LoxLexer.Proofs.Number.ReadBack
import LoxLexer.Proofs.Number.Rounding

/-!
The search for the fewest digits.

What is rounded to a double lies in an interval around it, `Rounds.between`. So on each grid one of
the two points next to the double is rounded to it if any point is, and the one that is taken is
the nearest, `before_of_onGrid?`.
-/

namespace LoxLexer

namespace Binary64

/-! ### The numbers that are rounded to a double -/

/-- The double without its sign. -/
def unsigned (x : Binary64) : Binary64 := { x with negative := false }

lemma value_unsigned (x : Binary64) : x.unsigned.value = (units x.magnitude : ℚ) / one :=
  value_of_positive rfl

lemma abs_value (x : Binary64) : |x.value| = x.unsigned.value := by
  have nonneg : (0 : ℚ) ≤ units x.magnitude / one := by positivity
  rw [value_unsigned]
  cases sign : x.negative with
  | false => rw [value_of_positive sign, abs_of_nonneg nonneg]
  | true => rw [value_of_negative sign, abs_neg, abs_of_nonneg nonneg]

/-- The midpoint between a magnitude and the next one. -/
def halfway (k : Nat) : ℚ := ((units k + units (k + 1) : Nat) : ℚ) / 2 ^ 1075

lemma lt_nearestUnbounded_iff_halfway (num k : Nat) {den : Nat} (hd : 0 < den) :
    k < nearestUnbounded num den ↔
      halfway k < num / den ∨ halfway k = num / den ∧ k % 2 = 1 := by
  have le := half_le_iff num (units k + units (k + 1)) hd
  have ge := le_half_iff num (units k + units (k + 1)) hd
  have below : (units k + units (k + 1)) * den < 2 * (one * num) ↔ halfway k < num / den := by
    rw [← not_le, ← not_le, ge, halfway]
  have tie : (units k + units (k + 1)) * den = 2 * (one * num) ↔ halfway k = num / den := by
    rw [le_antisymm_iff, le_antisymm_iff, le, ge, halfway]
  rw [lt_nearestUnbounded_iff num k hd, below, tie]

/-- A larger number is not rounded to a smaller double. -/
lemma nearest_mono {a b c d : Nat} (hb : 0 < b) (hd : 0 < d) (h : (a : ℚ) / b ≤ c / d) :
    nearest a b ≤ nearest c d := by
  have unbounded : nearestUnbounded a b ≤ nearestUnbounded c d := by
    by_contra above
    refine (lt_irrefl (nearestUnbounded c d)) ?_
    rw [not_le, lt_nearestUnbounded_iff_halfway _ _ hb] at above
    rw [lt_nearestUnbounded_iff_halfway _ _ hd]
    rcases above with beyond | ⟨tie, odd⟩
    · exact Or.inl (beyond.trans_le h)
    · rw [← tie] at h
      exact h.lt_or_eq.imp_right fun eq => ⟨eq, odd⟩
  rw [nearest_eq_min, nearest_eq_min]
  exact min_le_min_right _ unbounded

lemma rounds_iff {num den : Nat} (hd : 0 < den) {x : Binary64} (sign : x.negative = false) :
    Rounds (num / den) x ↔ nearest num den = x.magnitude := by
  refine ⟨fun rounds => ?_, fun eq => rounds_nearest hd sign eq.symm⟩
  have lt : nearest num den < 0x8000000000000000 :=
    (nearest_le num den).trans_lt (by decide)
  have same : x = ⟨false, nearest num den, lt⟩ := rounds.unique (rounds_nearest hd rfl rfl)
  rw [same]

lemma exists_fraction {q : ℚ} (hq : 0 ≤ q) : ∃ num den : Nat, 0 < den ∧ q = num / den := by
  refine ⟨q.num.toNat, q.den, q.den_pos, ?_⟩
  have natural : ((q.num.toNat : ℤ) : ℚ) = q.num := by
    rw [Int.toNat_of_nonneg (Rat.num_nonneg.mpr hq)]
  rw [← Int.cast_natCast, natural, Rat.num_div_den]

/-- What lies between two numbers that are rounded to a double is rounded to it, too. -/
theorem Rounds.between {p q r : ℚ} {x : Binary64} (hp : Rounds p x) (hr : Rounds r x)
    (nonneg : 0 ≤ p) (low : p ≤ q) (high : q ≤ r) : Rounds q x := by
  obtain ⟨a, b, hb, rfl⟩ := exists_fraction nonneg
  obtain ⟨c, d, hd, rfl⟩ := exists_fraction (nonneg.trans low)
  obtain ⟨e, f, hf, rfl⟩ := exists_fraction (nonneg.trans (low.trans high))
  have sign := hp.negative
  rw [rounds_iff hb sign] at hp
  rw [rounds_iff hf sign] at hr
  rw [rounds_iff hd sign]
  have := nearest_mono hb hd low
  have := nearest_mono hd hf high
  omega

/-- A double is rounded to itself. -/
lemma rounds_self {x : Binary64} (hx : x.isFinite) : Rounds x.unsigned.value x.unsigned := by
  rw [value_unsigned, rounds_iff one_pos rfl]
  have exact : one * units x.magnitude = units x.unsigned.magnitude * one := Nat.mul_comm ..
  refine nearest_eq (isFinite_iff.mp hx).le ?_
  rw [exact, Nat.dist_self]
  exact one_pos

lemma Rounds.pos {q : ℚ} {x : Binary64} (h : Rounds q x) (hx : x.magnitude ≠ 0) : 0 < q := by
  have above : ¬ q ≤ 1 / 2 ^ 1075 := fun le => by
    have zero := h.underflow.mpr le
    rw [bits_of_positive h.negative] at zero
    exact hx zero
  exact lt_trans (by positivity) (not_le.mp above)

end Binary64

open Binary64

/-- Of two decimals that are equally near, whether the first is taken. -/
def Ties.Prefers : Ties → Nat → Nat → Prop
  | .away, c, d => d < c
  | .even, c, d => c % 2 = 0 ∧ d % 2 = 1

namespace Shortest

/-! ### Grids -/

/-- The distance of two points of a grid. -/
def width (j : Nat) : ℚ := 10 ^ ((j : ℤ) - depth)

lemma width_pos (j : Nat) : 0 < width j := by
  unfold width
  positivity

lemma width_add (i n : Nat) : width (i + n) = 10 ^ n * width i := by
  have exponent : ((i + n : Nat) : ℤ) - depth = n + (i - depth) := by
    push_cast
    ring
  rw [width, width, exponent, zpow_add₀ (by norm_num), zpow_natCast]

lemma width_eq (j : Nat) : width j = ((Nat.pow 10 j : Nat) : ℚ) / (Nat.pow 10 depth : Nat) := by
  rw [width, zpow_sub₀ (by norm_num), zpow_natCast, zpow_natCast, Nat.pow_eq, Nat.pow_eq]
  push_cast
  rfl

lemma depth_pow_pos : 0 < Nat.pow 10 depth := Nat.pow_pos (by decide)

lemma readsBack_iff (x : Binary64) (j c : Nat) :
    ReadsBack x.magnitude j c ↔ Rounds (c * width j) x.unsigned := by
  have fraction : (c : ℚ) * width j = (c * Nat.pow 10 j : Nat) / (Nat.pow 10 depth : Nat) := by
    rw [width_eq]
    push_cast
    ring
  rw [fraction, rounds_iff depth_pow_pos rfl]
  rfl

/-- What the search multiplies all numbers with, to compare whole ones. -/
def scale : ℚ := (one * Nat.pow 10 depth : Nat)

lemma scale_pos : 0 < scale := Nat.cast_pos.mpr (Nat.mul_pos one_pos depth_pow_pos)

lemma cast_scaled (x : Binary64) (m : Nat) :
    ((m * scaled x.magnitude : Nat) : ℚ) = m * x.unsigned.value * scale := by
  have ne : (one : ℚ) ≠ 0 := Nat.cast_ne_zero.mpr one_pos.ne'
  rw [value_unsigned, scale, scaled]
  simp only [Nat.cast_mul]
  field_simp

lemma cast_point (j n : Nat) : ((one * (Nat.pow 10 j * n) : Nat) : ℚ) = n * width j * scale := by
  have ne : ((Nat.pow 10 depth : Nat) : ℚ) ≠ 0 := Nat.cast_ne_zero.mpr depth_pow_pos.ne'
  rw [width_eq, scale]
  simp only [Nat.cast_mul]
  field_simp

lemma scaled_lt_point_iff (x : Binary64) (j m n : Nat) :
    m * scaled x.magnitude < one * (Nat.pow 10 j * n) ↔ m * x.unsigned.value < n * width j := by
  rw [← Nat.cast_lt (α := ℚ), cast_scaled, cast_point, mul_lt_mul_iff_left₀ scale_pos]

lemma point_lt_scaled_iff (x : Binary64) (j m n : Nat) :
    one * (Nat.pow 10 j * n) < m * scaled x.magnitude ↔ n * width j < m * x.unsigned.value := by
  rw [← Nat.cast_lt (α := ℚ), cast_scaled, cast_point, mul_lt_mul_iff_left₀ scale_pos]

/-- The point below is the last one that is not above the double. -/
lemma lt_below_iff (x : Binary64) (j n : Nat) :
    below x.magnitude j < n ↔ x.unsigned.value < n * width j := by
  have pos : 0 < one * Nat.pow 10 j := Nat.mul_pos one_pos (Nat.pow_pos (by decide))
  have compared := scaled_lt_point_iff x j 1 n
  rw [Nat.cast_one, Nat.one_mul, one_mul] at compared
  rw [← compared, below, Nat.div_lt_iff_lt_mul pos, Nat.mul_comm n, Nat.mul_assoc]

lemma below_le (x : Binary64) (j : Nat) : below x.magnitude j * width j ≤ x.unsigned.value :=
  not_lt.mp fun h => lt_irrefl _ ((lt_below_iff x j _).mpr h)

lemma lt_above (x : Binary64) (j : Nat) :
    x.unsigned.value < (below x.magnitude j + 1 : Nat) * width j :=
  (lt_below_iff x j _).mp (Nat.lt_succ_self _)

/-! ### The point that is taken -/

/-- On grid `j` the point `c` is taken before `d`: it is nearer, or the two are equally near, next
to the double on either side, and `c` is preferred. -/
def Before (ties : Ties) (x : Binary64) (j c d : Nat) : Prop :=
  |c * width j - x.unsigned.value| < |d * width j - x.unsigned.value| ∨
    (c = below x.magnitude j ∧ d = below x.magnitude j + 1 ∨
        c = below x.magnitude j + 1 ∧ d = below x.magnitude j) ∧
      |c * width j - x.unsigned.value| = |d * width j - x.unsigned.value| ∧ ties.Prefers c d

lemma Before.le {ties : Ties} {x : Binary64} {j c d : Nat} (h : Before ties x j c d) :
    |c * width j - x.unsigned.value| ≤ |d * width j - x.unsigned.value| := by
  rcases h with lt | ⟨-, eq, -⟩
  · exact lt.le
  · exact eq.le

/-- Of two points on one side the one next to the double is nearer. -/
lemma abs_sub_lt_of_lt {x : Binary64} {j c d : Nat} (h : d < c) (hc : c ≤ below x.magnitude j) :
    |c * width j - x.unsigned.value| < |d * width j - x.unsigned.value| := by
  have pos := width_pos j
  have under : c * width j ≤ x.unsigned.value := by
    refine le_trans ?_ (below_le x j)
    gcongr
  have far : (d : ℚ) * width j < c * width j := by gcongr
  rw [abs_of_nonpos (by linarith), abs_of_nonpos (by linarith)]
  linarith

lemma abs_sub_lt_of_gt {x : Binary64} {j c d : Nat} (h : c < d)
    (hc : below x.magnitude j + 1 ≤ c) :
    |c * width j - x.unsigned.value| < |d * width j - x.unsigned.value| := by
  have pos := width_pos j
  have above : x.unsigned.value ≤ c * width j := by
    refine (lt_above x j).le.trans ?_
    gcongr
  have far : (c : ℚ) * width j < d * width j := by gcongr
  rw [abs_of_nonneg (by linarith), abs_of_nonneg (by linarith)]
  linarith

lemma abs_below (x : Binary64) (j : Nat) :
    |below x.magnitude j * width j - x.unsigned.value| =
      x.unsigned.value - below x.magnitude j * width j := by
  rw [abs_sub_comm, abs_of_nonneg (sub_nonneg.mpr (below_le x j))]

lemma abs_above (x : Binary64) (j : Nat) :
    |(below x.magnitude j + 1 : Nat) * width j - x.unsigned.value| =
      (below x.magnitude j + 1) * width j - x.unsigned.value := by
  rw [abs_of_nonneg (sub_nonneg.mpr (lt_above x j).le), Nat.cast_succ]

lemma before_nearer (ties : Ties) (x : Binary64) (j : Nat) :
    nearer ties x.magnitude j = below x.magnitude j ∧
        Before ties x j (below x.magnitude j) (below x.magnitude j + 1) ∨
      nearer ties x.magnitude j = below x.magnitude j + 1 ∧
        Before ties x j (below x.magnitude j + 1) (below x.magnitude j) := by
  have down := scaled_lt_point_iff x j 2 (2 * below x.magnitude j + 1)
  have up := point_lt_scaled_iff x j 2 (2 * below x.magnitude j + 1)
  have low := abs_below x j
  have high := abs_above x j
  push_cast at down up high
  unfold nearer Before
  generalize below x.magnitude j = b at *
  dsimp only
  push_cast
  rw [low, high]
  have tie (h : 2 * scaled x.magnitude = one * (Nat.pow 10 j * (2 * b + 1))) :
      x.unsigned.value - b * width j = (b + 1) * width j - x.unsigned.value := by
    have := not_lt.mp (down.not.mp h.not_lt)
    have := not_lt.mp (up.not.mp h.not_gt)
    linarith
  split
  · next h =>
    have := down.mp (Nat.compare_eq_lt.mp h)
    exact Or.inl ⟨rfl, Or.inl (by linarith)⟩
  · next h =>
    have := up.mp (Nat.compare_eq_gt.mp h)
    exact Or.inr ⟨rfl, Or.inl (by linarith)⟩
  · next h =>
    have := tie (Nat.compare_eq_eq.mp h)
    exact Or.inr ⟨rfl, Or.inr ⟨by omega, this.symm, Nat.lt_succ_self b⟩⟩
  · next h =>
    have := tie (Nat.compare_eq_eq.mp h)
    by_cases even : b % 2 = 0
    · rw [if_pos even]
      exact Or.inl ⟨rfl, Or.inr ⟨by omega, this, even, by omega⟩⟩
    · rw [if_neg even]
      exact Or.inr ⟨rfl, Or.inr ⟨by omega, this.symm, by omega, by omega⟩⟩

/-! ### What is on a grid -/

section

variable {x : Binary64} (finite : x.isFinite)
include finite

/-- If a point that is not above the double is read as it, so is the one next to it. -/
lemma readsBack_below_of_le {j d : Nat} (h : ReadsBack x.magnitude j d)
    (hd : d ≤ below x.magnitude j) : ReadsBack x.magnitude j (below x.magnitude j) := by
  have pos := width_pos j
  rw [readsBack_iff] at h ⊢
  refine h.between (rounds_self finite) (by positivity) ?_ (below_le x j)
  gcongr

lemma readsBack_above_of_ge {j d : Nat} (h : ReadsBack x.magnitude j d)
    (hd : below x.magnitude j + 1 ≤ d) : ReadsBack x.magnitude j (below x.magnitude j + 1) := by
  have pos := width_pos j
  have nonneg : 0 ≤ x.unsigned.value := by
    rw [value_unsigned]
    positivity
  rw [readsBack_iff] at h ⊢
  refine (rounds_self finite).between h nonneg (lt_above x j).le ?_
  gcongr

/-- If no point is taken, none is read as the double. -/
lemma not_readsBack_of_onGrid? {ties : Ties} {j : Nat}
    (none : onGrid? ties x.magnitude j = none) (d : Nat) : ¬ ReadsBack x.magnitude j d := by
  intro h
  unfold onGrid? at none
  dsimp only at none
  rcases Nat.lt_or_ge (below x.magnitude j) d with above | under
  · rw [if_pos (readsBack_above_of_ge finite h above),
      if_pos (readsBack_above_of_ge finite h above)] at none
    split at none <;> cases none
  · rw [if_pos (readsBack_below_of_le finite h under)] at none
    split at none <;> cases none

/-- The point that is taken is taken before every other one that is read as the double. -/
theorem before_of_onGrid? {ties : Ties} {j c d : Nat} (hc : onGrid? ties x.magnitude j = some c)
    (hd : ReadsBack x.magnitude j d) (ne : d ≠ c) : Before ties x j c d := by
  unfold onGrid? at hc
  dsimp only at hc
  rcases Nat.lt_or_ge (below x.magnitude j) d with above | under
  · rw [if_pos (readsBack_above_of_ge finite hd above),
      if_pos (readsBack_above_of_ge finite hd above)] at hc
    have beyond (h : c = below x.magnitude j + 1) : Before ties x j c d :=
      Or.inl (abs_sub_lt_of_gt (by omega) h.ge)
    split at hc
    · rcases before_nearer ties x j with ⟨eq, before⟩ | ⟨eq, -⟩
      · obtain rfl : below x.magnitude j = c := eq.symm.trans (Option.some.inj hc)
        rcases Nat.eq_or_lt_of_le above with rfl | far
        · exact before
        · exact Or.inl (before.le.trans_lt (abs_sub_lt_of_gt far le_rfl))
      · exact beyond ((Option.some.inj hc).symm.trans eq)
    · exact beyond (Option.some.inj hc).symm
  · rw [if_pos (readsBack_below_of_le finite hd under)] at hc
    have beyond (h : c = below x.magnitude j) : Before ties x j c d :=
      Or.inl (abs_sub_lt_of_lt (by omega) h.le)
    split at hc
    · rcases before_nearer ties x j with ⟨eq, -⟩ | ⟨eq, before⟩
      · exact beyond ((Option.some.inj hc).symm.trans eq)
      · obtain rfl : below x.magnitude j + 1 = c := eq.symm.trans (Option.some.inj hc)
        rcases Nat.eq_or_lt_of_le under with rfl | far
        · exact before
        · exact Or.inl (before.le.trans_lt (abs_sub_lt_of_lt far le_rfl))
    · exact beyond (Option.some.inj hc).symm

end

/-! ### The search -/

/-- The power of ten of the leading digit. -/
lemma toDigits_bounds {n : Nat} (hn : n ≠ 0) :
    10 ^ ((Nat.toDigits 10 n).length - 1) ≤ n ∧ n < 10 ^ ((Nat.toDigits 10 n).length - 1 + 1) := by
  have length := @Nat.length_toDigits_pos 10 n
  constructor
  · rcases Nat.eq_zero_or_pos ((Nat.toDigits 10 n).length - 1) with zero | pos
    · rw [zero, pow_zero]
      omega
    · have := (Nat.length_toDigits_le_iff (n := n) (b := 10) (by decide) pos).not
      omega
  · rw [Nat.sub_add_cancel length]
    exact (Nat.length_toDigits_le_iff (by decide) length).mp le_rfl

lemma ne_zero_of_readsBack {x : Binary64} {j c : Nat} (nonzero : x.magnitude ≠ 0)
    (h : ReadsBack x.magnitude j c) : c ≠ 0 := by
  rintro rfl
  have pos := ((readsBack_iff x j 0).mp h).pos nonzero
  simp at pos

/-- The search has found the point `c` on grid `j`, and none on the grids from there up to that of
the leading digit. -/
structure Found (ties : Ties) (x : Binary64) (top j c : Nat) : Prop where
  point : onGrid? ties x.magnitude j = some c
  le : j ≤ top
  coarser : ∀ i, j < i → i ≤ top → ∀ d, ¬ ReadsBack x.magnitude i d
  low : width top ≤ x.unsigned.value
  high : x.unsigned.value < width (top + 1)

section

variable {x : Binary64} (finite : x.isFinite)
include finite

lemma onGrid?_zero (ties : Ties) : ∃ c, onGrid? ties x.magnitude 0 = some c := by
  cases h : onGrid? ties x.magnitude 0 with
  | none =>
    have finest := readsBack_below (isFinite_iff.mp finite).le
    exact absurd finest (not_readsBack_of_onGrid? finite h _)
  | some c => exact ⟨c, rfl⟩

lemma search_spec (ties : Ties) (top : Nat) :
    onGrid? ties x.magnitude (search ties x.magnitude top).1 =
        some (search ties x.magnitude top).2 ∧
      (search ties x.magnitude top).1 ≤ top ∧
      ∀ i, (search ties x.magnitude top).1 < i → i ≤ top → ∀ d, ¬ ReadsBack x.magnitude i d := by
  induction top with
  | zero =>
    obtain ⟨c, hc⟩ := onGrid?_zero finite ties
    rw [search, hc, Option.getD_some]
    exact ⟨rfl, le_rfl, fun i above le => absurd le (by omega)⟩
  | succ top ih =>
    obtain ⟨point, le, coarser⟩ := ih
    rw [search]
    split
    · next c hc => exact ⟨hc, le_rfl, fun i above le => absurd le (by omega)⟩
    · next none =>
      refine ⟨point, by omega, fun i above le => ?_⟩
      rcases Nat.eq_or_lt_of_le le with rfl | lt
      · exact not_readsBack_of_onGrid? finite none
      · exact coarser i above (by omega)

/-- The leading digit of the double is counted by the points of this grid. -/
lemma leadingGrid_spec (nonzero : x.magnitude ≠ 0) :
    width (leadingGrid x.magnitude) ≤ x.unsigned.value ∧
      x.unsigned.value < width (leadingGrid x.magnitude + 1) := by
  have finest := readsBack_below (isFinite_iff.mp finite).le
  have nonzero := ne_zero_of_readsBack nonzero finest
  have low := below_le x 0
  have high := lt_above x 0
  unfold leadingGrid
  generalize below x.magnitude 0 = b at *
  obtain ⟨ge, lt⟩ := toDigits_bounds nonzero
  have pos := width_pos 0
  have scaled (n : Nat) : width n = (10 ^ n : Nat) * width 0 := by
    have := width_add 0 n
    rw [Nat.zero_add] at this
    rw [this, Nat.cast_pow, Nat.cast_ofNat]
  constructor
  · calc width ((Nat.toDigits 10 b).length - 1)
        = (10 ^ ((Nat.toDigits 10 b).length - 1) : Nat) * width 0 := scaled _
      _ ≤ b * width 0 := by gcongr
      _ ≤ x.unsigned.value := low
  · calc x.unsigned.value < (b + 1 : Nat) * width 0 := high
      _ ≤ (10 ^ ((Nat.toDigits 10 b).length - 1 + 1) : Nat) * width 0 := by
        gcongr
        exact lt
      _ = width ((Nat.toDigits 10 b).length - 1 + 1) := (scaled _).symm

theorem found_search (ties : Ties) (nonzero : x.magnitude ≠ 0) :
    Found ties x (leadingGrid x.magnitude)
      (search ties x.magnitude (leadingGrid x.magnitude)).1
      (search ties x.magnitude (leadingGrid x.magnitude)).2 := by
  obtain ⟨point, le, coarser⟩ := search_spec finite ties (leadingGrid x.magnitude)
  obtain ⟨low, high⟩ := leadingGrid_spec finite nonzero
  exact ⟨point, le, coarser, low, high⟩

end

end Shortest

end LoxLexer
