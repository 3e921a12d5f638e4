import LoxLexer.Proofs.Number.Grids

/-!
The shortest decimal of a double.

A decimal with fewer digits than the one found is on a coarser grid, where nothing is read as the
double, or below its leading digit, `Found.le_length`. One with as many digits is on the same grid,
or it is too far, `Found.before`.
-/

namespace LoxLexer

open Binary64

/-! ### Decimals without zeros at the end -/

namespace Decimal

lemma reduce_of_not_dvd {d : Decimal} (h : ¬ 10 ∣ d.digits) : d.reduce = d := by
  rw [reduce, if_neg]
  omega

lemma not_dvd_reduce {d : Decimal} (h : d.digits ≠ 0) : ¬ 10 ∣ d.reduce.digits := by
  induction d using reduce.induct with
  | case1 d zero ih =>
    rw [reduce, if_pos zero]
    refine ih ?_
    show d.digits / 10 ≠ 0
    omega
  | case2 d other =>
    rw [reduce, if_neg other]
    omega

lemma digits_reduce_le (d : Decimal) : d.reduce.digits ≤ d.digits := by
  induction d using reduce.induct with
  | case1 d zero ih =>
    rw [reduce, if_pos zero]
    exact ih.trans (Nat.div_le_self d.digits 10)
  | case2 d other => rw [reduce, if_neg other]

/-- Such a decimal is told from its value. -/
theorem eq_of_value_eq {d e : Decimal} (hd : ¬ 10 ∣ d.digits) (he : ¬ 10 ∣ e.digits)
    (h : d.value = e.value) : d = e := by
  wlog le : d.exponent ≤ e.exponent generalizing d e with other
  · exact (other he hd h.symm (by omega)).symm
  obtain ⟨n, hn⟩ := Int.eq_ofNat_of_zero_le (sub_nonneg.mpr le)
  have exponent : e.exponent = d.exponent + n := by omega
  have digits : d.digits = e.digits * 10 ^ n := by
    have pos : (0 : ℚ) < 10 ^ d.exponent := by positivity
    rw [value, value, exponent, zpow_add₀ (by norm_num), zpow_natCast, mul_left_comm,
      mul_comm (10 ^ d.exponent : ℚ), mul_left_inj' pos.ne'] at h
    exact_mod_cast h
  cases n with
  | zero =>
    cases d
    cases e
    simp_all
  | succ n =>
    rw [pow_succ] at digits
    exact absurd (digits ▸ Dvd.intro_left _ (mul_assoc _ _ _)) hd

/-- The number of digits. -/
def length (d : Decimal) : Nat := (Nat.toDigits 10 d.digits).length

lemma length_le_iff {d : Decimal} {s : Nat} (hs : 0 < s) : d.length ≤ s ↔ d.digits < 10 ^ s :=
  Nat.length_toDigits_le_iff (by decide) hs

end Decimal

namespace Shortest

lemma width_eq_one_mul (j : Nat) : width j = (1 : Nat) * width j := by
  rw [Nat.cast_one, one_mul]

/-- A decimal with its last digit on grid `i` or a coarser one is a point of grid `i`. -/
lemma exists_point {d : Decimal} {i : Nat} (h : (i : ℤ) ≤ d.exponent + depth) :
    ∃ n : Nat, d.exponent + depth = i + n ∧ d.value = (d.digits * 10 ^ n : Nat) * width i := by
  obtain ⟨n, hn⟩ := Int.eq_ofNat_of_zero_le (sub_nonneg.mpr h)
  have exponent : d.exponent = n + (i - depth) := by omega
  refine ⟨n, by omega, ?_⟩
  rw [Decimal.value, exponent, zpow_add₀ (by norm_num), zpow_natCast, width]
  push_cast
  ring

/-- Digits that end on finer grids do not reach a point of grid `i`. -/
lemma value_lt_width {d : Decimal} {s i : Nat} (digits : d.digits < 10 ^ s)
    (place : d.exponent + depth + s ≤ i) : d.value < width i := by
  have pos : (0 : ℚ) < 10 ^ d.exponent := by positivity
  calc d.value < (10 ^ s : Nat) * 10 ^ d.exponent := by
        unfold Decimal.value
        gcongr
    _ = 10 ^ (d.exponent + s) := by
        rw [zpow_add₀ (by norm_num), zpow_natCast]
        push_cast
        ring
    _ ≤ width i := by
        unfold width
        exact zpow_le_zpow_right₀ (by norm_num) (by omega)

/-! ### What the search has found -/

section

variable {ties : Ties} {x : Binary64} {top j c : Nat} (finite : x.isFinite)
  (nonzero : x.magnitude ≠ 0) (found : Found ties x top j c)

include finite nonzero found

/-- Nothing below the leading digit is read as the double, else the digit alone would be. -/
lemma Found.width_le (coarse : j < top) {q : ℚ} (h : Rounds q x.unsigned) : width top ≤ q := by
  by_contra below
  have rounds := h.between (rounds_self finite) (h.pos nonzero).le (not_le.mp below).le found.low
  rw [width_eq_one_mul, ← readsBack_iff] at rounds
  exact found.coarser top coarse le_rfl 1 rounds

omit nonzero finite in
/-- Nothing on a coarser grid is read as the double. -/
lemma Found.place_le (coarse : j < top) {d : Decimal} (h : Rounds d.value x.unsigned) :
    d.exponent + depth ≤ j := by
  by_contra above
  obtain ⟨n, -, value⟩ := exists_point (d := d) (i := j + 1) (by push_cast; omega)
  rw [value, ← readsBack_iff] at h
  exact found.coarser (j + 1) (Nat.lt_succ_self j) coarse _ h

/-- **Fewest**: whatever is read as the double has as many digits as the grid that was found. -/
theorem Found.le_length {d : Decimal} (h : Rounds d.value x.unsigned) :
    top + 1 - j ≤ d.length := by
  have length : 0 < d.length := Nat.length_toDigits_pos
  by_contra short
  have coarse : j < top := by omega
  have place := found.place_le coarse h
  have lt : d.value < width top := by
    refine value_lt_width (s := top - j) ?_ (by omega)
    exact (Decimal.length_le_iff (by omega)).mp (by omega)
  exact absurd (found.width_le finite nonzero coarse h) (not_le.mpr lt)

omit finite nonzero in
lemma Found.below_lt : below x.magnitude j < 10 ^ (top + 1 - j) := by
  have le : j ≤ top + 1 := found.le.trans (Nat.le_succ top)
  obtain ⟨n, hn⟩ := Nat.exists_eq_add_of_le le
  have high := found.high
  rw [hn, width_add] at high
  rw [lt_below_iff, hn, Nat.add_sub_cancel_left]
  exact_mod_cast high

omit finite nonzero in
lemma Found.below_pos : 0 < below x.magnitude j := by
  by_contra zero
  have lt := (lt_below_iff x j 1).mp (by omega)
  rw [← width_eq_one_mul] at lt
  have le : width j ≤ width top := by
    unfold width
    exact zpow_le_zpow_right₀ (by norm_num) (by simpa using found.le)
  exact absurd (lt.trans_le le) (not_lt.mpr found.low)

omit finite nonzero in
lemma Found.eq_or : c = below x.magnitude j ∨ c = below x.magnitude j + 1 := by
  have point := found.point
  have near := nearer_eq_or ties x.magnitude j
  unfold onGrid? at point
  dsimp only at point
  split_ifs at point <;> simp only [Option.some.injEq] at point <;> omega

omit finite nonzero in
lemma Found.not_dvd (coarse : j < top) {d : Nat} (h : ReadsBack x.magnitude j d) : ¬ 10 ∣ d := by
  rintro ⟨e, rfl⟩
  have next : ((10 * e : Nat) : ℚ) * width j = e * width (j + 1) := by
    rw [width_add]
    push_cast
    ring
  rw [readsBack_iff, next, ← readsBack_iff] at h
  exact found.coarser (j + 1) (Nat.lt_succ_self j) coarse e h

omit finite in
/-- Without its zeros the point that was found has no more digits than its grid leaves. -/
lemma Found.length_le : (Decimal.reduce ⟨c, j - depth⟩).length ≤ top + 1 - j := by
  have le := found.le
  have rest : 0 < top + 1 - j := by omega
  have pos := ne_zero_of_readsBack nonzero (readsBack_of_onGrid? found.point)
  have not_dvd : ¬ 10 ∣ (Decimal.reduce ⟨c, j - depth⟩).digits := Decimal.not_dvd_reduce pos
  have reduced : (Decimal.reduce ⟨c, j - depth⟩).digits ≤ c := Decimal.digits_reduce_le _
  have below := found.below_lt
  have near := found.eq_or
  have ne : (Decimal.reduce ⟨c, j - depth⟩).digits ≠ 10 ^ (top + 1 - j) := fun same =>
    not_dvd (same ▸ dvd_pow_self 10 rest.ne')
  rw [Decimal.length_le_iff rest]
  omega

/-- **Nearest**: what is read as the double and has no more digits is farther, or a point of the
same grid. -/
theorem Found.before {d : Decimal} (h : Rounds d.value x.unsigned)
    (length : d.length ≤ top + 1 - j) (ne : d.value ≠ c * width j) :
    |c * width j - x.unsigned.value| < |d.value - x.unsigned.value| ∨
      ∃ e : Nat, d.value = e * width j ∧ ReadsBack x.magnitude j e ∧ Before ties x j c e := by
  have le := found.le
  by_cases place : (j : ℤ) ≤ d.exponent + depth
  · obtain ⟨n, -, value⟩ := exists_point place
    rw [value] at h ne
    rw [← readsBack_iff] at h
    exact Or.inr ⟨_, value, h, before_of_onGrid? finite found.point h fun same => ne (by rw [same])⟩
  · have lt : d.value < width top :=
      value_lt_width ((Decimal.length_le_iff (by omega)).mp length) (by omega)
    obtain rfl : j = top := by
      by_contra other
      exact absurd (found.width_le finite nonzero (by omega) h) (not_le.mpr lt)
    -- the point below lies between this decimal and the double
    have pos := width_pos j
    have low := below_le x j
    have first : width j ≤ below x.magnitude j * width j := by
      have one_le : (1 : ℚ) ≤ below x.magnitude j := Nat.one_le_cast.mpr found.below_pos
      exact le_mul_of_one_le_left pos.le one_le
    have rounds := h.between (rounds_self finite) (h.pos nonzero).le (lt.le.trans first) low
    rw [← readsBack_iff] at rounds
    have near : |c * width j - x.unsigned.value| ≤
        x.unsigned.value - below x.magnitude j * width j := by
      rw [← abs_below]
      by_cases same : below x.magnitude j = c
      · rw [same]
      · exact (before_of_onGrid? finite found.point rounds same).le
    have far : |d.value - x.unsigned.value| = x.unsigned.value - d.value := by
      rw [abs_sub_comm, abs_of_nonneg (by linarith)]
    refine Or.inl ?_
    rw [far]
    linarith

end

/-- In the middle between nine and ten points is no double that is read from ten: its significand
would be a multiple of nineteen, and smaller. -/
lemma not_readsBack_ten {x : Binary64} {j : Nat} (finite : x.isFinite)
    (tie : 2 * x.unsigned.value = 19 * width j) : ¬ ReadsBack x.magnitude j 10 := by
  intro h
  obtain ⟨s, m, place, hm, hs⟩ := exists_place x.magnitude
  have units_eq : units x.magnitude = m * 2 ^ s := by rw [place, units_add hm.le hs]
  have next : units (x.magnitude + 1) = (m + 1) * 2 ^ s := by
    rw [place, Nat.add_assoc, units_add hm (hs.imp_right fun le => by omega)]
  have pos := width_pos j
  have unit : (0 : ℚ) < 2 ^ s / one := div_pos (by positivity) (Nat.cast_pos.mpr one_pos)
  have value : x.unsigned.value = m * (2 ^ s / one) := by
    rw [value_unsigned, units_eq]
    push_cast
    ring
  have middle : halfway x.magnitude = (2 * m + 1) / 2 * (2 ^ s / one) := by
    rw [halfway, half_div_one, units_eq, next]
    push_cast
    field_simp
    ring
  -- ten points are not above the midpoint, so they are at most a unit apart
  have small : width j ≤ 2 ^ s / one := by
    have unbounded : nearestUnbounded (10 * Nat.pow 10 j) (Nat.pow 10 depth) = x.magnitude := by
      have lt := isFinite_iff.mp finite
      rw [← h] at lt ⊢
      exact nearestUnbounded_of_lt lt
    have ten : (10 : ℚ) * width j = (10 * Nat.pow 10 j : Nat) / (Nat.pow 10 depth : Nat) := by
      rw [width_eq]
      push_cast
      ring
    have kept := (lt_nearestUnbounded_iff_halfway (10 * Nat.pow 10 j) x.magnitude
      depth_pow_pos).not.mp (by rw [unbounded]; exact lt_irrefl _)
    have := not_lt.mp (not_or.mp kept).1
    rw [← ten, middle] at this
    rw [value] at tie
    linarith
  have bound : 2 * m ≤ 19 := by
    have : 2 * m * (2 ^ s / one : ℚ) ≤ 19 * (2 ^ s / one) := by
      rw [value] at tie
      linarith
    exact_mod_cast le_of_mul_le_mul_right this unit
  have dvd : 19 ∣ m := by
    have whole : m * (2 * 2 ^ s * 10 ^ depth) = 19 * (10 ^ j * one) := by
      have one_ne : (one : ℚ) ≠ 0 := Nat.cast_ne_zero.mpr one_pos.ne'
      rw [value, width_eq, Nat.pow_eq, Nat.pow_eq] at tie
      push_cast at tie
      field_simp at tie
      have : (m : ℚ) * (2 * 2 ^ s * 10 ^ depth) = 19 * (10 ^ j * one) := by linarith
      exact_mod_cast this
    have coprime : Nat.Coprime 19 (2 * 2 ^ s * 10 ^ depth) :=
      .mul_right (.mul_right (by decide) (.pow_right s (by decide))) (.pow_right depth (by decide))
    exact coprime.dvd_of_dvd_mul_right ⟨_, whole⟩
  have zero : m = 0 := by omega
  rw [value, zero] at tie
  push_cast at tie
  linarith

/-- Of two points that are equally near none ends in a zero: such a point is on a coarser grid,
or it is ten times the leading digit. -/
lemma Found.not_dvd_of_tie {ties : Ties} {x : Binary64} {top j c e : Nat} (finite : x.isFinite)
    (found : Found ties x top j c) (he : ReadsBack x.magnitude j e)
    (sides : c = below x.magnitude j ∧ e = below x.magnitude j + 1 ∨
      c = below x.magnitude j + 1 ∧ e = below x.magnitude j)
    (tie : |c * width j - x.unsigned.value| = |e * width j - x.unsigned.value|) :
    ¬ 10 ∣ c ∧ ¬ 10 ∣ e := by
  have hc := readsBack_of_onGrid? found.point
  rcases Nat.lt_or_ge j top with coarse | leading
  · exact ⟨found.not_dvd coarse hc, found.not_dvd coarse he⟩
  · -- the points are single digits, so nine and ten are left
    obtain rfl : j = top := found.le.antisymm leading
    have digit := found.below_lt
    have pos := found.below_pos
    rw [Nat.add_sub_cancel_left, pow_one] at digit
    have middle : x.unsigned.value - below x.magnitude j * width j =
        (below x.magnitude j + 1) * width j - x.unsigned.value := by
      rw [← abs_below, ← abs_above]
      rcases sides with ⟨rfl, rfl⟩ | ⟨rfl, rfl⟩
      · exact tie
      · exact tie.symm
    have ne : below x.magnitude j ≠ 9 := by
      intro nine
      rw [nine] at sides middle
      push_cast at middle
      refine not_readsBack_ten finite (j := j) (by linarith) ?_
      rcases sides with ⟨-, rfl⟩ | ⟨rfl, -⟩
      · exact he
      · exact hc
    omega

end Shortest

/-! ### The shortest decimal -/

namespace Decimal

/-- The decimal `d` is to be written for the double `x` before `e`. -/
inductive Better (ties : Ties) (x : Binary64) (d e : Decimal) : Prop where
  | fewer (length : d.length < e.length)
  | nearer (length : d.length = e.length)
    (near : |d.value - x.unsigned.value| < |e.value - x.unsigned.value|)
  | away (rule : ties = .away) (length : d.length = e.length)
    (tie : |d.value - x.unsigned.value| = |e.value - x.unsigned.value|) (larger : e.value < d.value)
  | even (rule : ties = .even) (length : d.length = e.length)
    (tie : |d.value - x.unsigned.value| = |e.value - x.unsigned.value|)
    (even : d.digits % 2 = 0) (odd : e.digits % 2 = 1)

end Decimal

namespace Binary64

open Decimal Shortest

/-- **Shortest**: the decimal of a double that is not zero has no zero at its end, is read as the
double, and is better than every other one that is. -/
theorem shortest_better (ties : Ties) {x : Binary64} (finite : x.isFinite)
    (nonzero : x.magnitude ≠ 0) :
    ¬ 10 ∣ (x.shortest ties).digits ∧ Rounds (x.shortest ties).value x.unsigned ∧
      ∀ e : Decimal, ¬ 10 ∣ e.digits → Rounds e.value x.unsigned → e ≠ x.shortest ties →
        (x.shortest ties).Better ties x e := by
  have found := found_search finite ties nonzero
  have shortest : x.shortest ties =
      reduce ⟨(search ties x.magnitude (leadingGrid x.magnitude)).2,
        (search ties x.magnitude (leadingGrid x.magnitude)).1 - depth⟩ := if_neg nonzero
  rw [shortest]
  generalize (search ties x.magnitude (leadingGrid x.magnitude)).1 = j at found
  generalize (search ties x.magnitude (leadingGrid x.magnitude)).2 = c at found
  have read := readsBack_of_onGrid? found.point
  have value : (reduce ⟨c, j - depth⟩).value = c * width j := value_reduce _
  have reduced : ¬ 10 ∣ (reduce ⟨c, j - depth⟩).digits :=
    not_dvd_reduce (ne_zero_of_readsBack nonzero read)
  have length := found.length_le nonzero
  rw [readsBack_iff, ← value] at read
  refine ⟨reduced, read, fun e he rounds ne => ?_⟩
  -- fewer digits than the grid leaves are never read as the double, and more are no match
  have longer := found.le_length finite nonzero rounds
  rcases longer.lt_or_eq with more | same
  · exact .fewer (length.trans_lt more)
  · have equal : (reduce ⟨c, j - depth⟩).length = e.length :=
      (length.trans same.le).antisymm (same.ge.trans (found.le_length finite nonzero read))
    have other : e.value ≠ c * width j := fun h =>
      ne (eq_of_value_eq he reduced (h.trans value.symm))
    rcases found.before finite nonzero rounds same.ge other with near | ⟨n, hn, readsBack, before⟩
    · exact .nearer equal (by rwa [value])
    · rcases before with near | ⟨sides, tie, prefers⟩
      · exact .nearer equal (by rwa [value, hn])
      · have distance : |(reduce ⟨c, j - depth⟩).value - x.unsigned.value| =
            |e.value - x.unsigned.value| := by rw [value, hn, tie]
        cases ties with
        | away =>
          refine .away rfl equal distance ?_
          have pos := width_pos j
          have lt : n < c := prefers
          rw [value, hn]
          gcongr
        | even =>
          obtain ⟨even, odd⟩ := prefers
          obtain ⟨hc, hn'⟩ := found.not_dvd_of_tie finite readsBack sides tie
          have digits : e = ⟨n, j - depth⟩ := eq_of_value_eq he hn' hn
          refine .even rfl equal distance ?_ ?_
          · rwa [reduce_of_not_dvd hc]
          · rwa [digits]

end Binary64

end LoxLexer
