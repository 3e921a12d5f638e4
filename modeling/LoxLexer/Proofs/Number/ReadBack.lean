import LoxLexer.Number.Style
import LoxLexer.Proofs.Number.Nearest
import Mathlib.Algebra.Order.Field.Power
import Mathlib.Tactic.Positivity

/-!
Numerals that read back.

The search for the shortest digits stops on a decimal that reads back, at the latest on the
finest grid, `search_readsBack`. Taking its zeros off and laying it out changes nothing about
its value, so the numeral of a double is read as that double in every style, `read_numeral`.
-/

namespace LoxLexer

open Binary64

namespace Shortest

lemma nearer_eq_or (ties : Ties) (k j : Nat) :
    nearer ties k j = below k j ∨ nearer ties k j = below k j + 1 := by
  unfold nearer
  dsimp only
  generalize compare (2 * scaled k) _ = order
  generalize below k j = c
  cases order with
  | lt => exact Or.inl rfl
  | gt => exact Or.inr rfl
  | eq =>
    cases ties with
    | away => exact Or.inr rfl
    | even => exact ite_eq_or_eq _ _ _

lemma readsBack_of_onGrid? {ties : Ties} {k j c : Nat} (h : onGrid? ties k j = some c) :
    ReadsBack k j c := by
  unfold onGrid? at h
  dsimp only at h
  split at h
  · next below =>
    split at h
    · next above =>
      obtain rfl := Option.some.inj h
      rcases nearer_eq_or ties k j with eq | eq
      · exact eq ▸ below
      · exact eq ▸ above
    · exact Option.some.inj h ▸ below
  · split at h
    · next above => exact Option.some.inj h ▸ above
    · cases h

/-- Half a unit is more than a step of the finest grid. -/
lemma two_mul_one_lt : 2 * one < Nat.pow 10 depth := by decide +kernel

lemma readsBack_below {k : Nat} (hk : k ≤ infinity) : ReadsBack k 0 (below k 0) := by
  have grid : Nat.pow 10 0 = 1 := rfl
  have split : one * below k 0 + scaled k % one = units k * Nat.pow 10 depth := by
    rw [below, grid, Nat.mul_one, Nat.mul_comm (units k)]
    exact Nat.div_add_mod (scaled k) one
  have step := Nat.mod_lt (scaled k) Binary64.one_pos
  have fine := two_mul_one_lt
  refine nearest_eq hk ?_
  rw [grid, Nat.mul_one, ← split]
  unfold Nat.dist
  omega

theorem search_readsBack (ties : Ties) {k : Nat} (hk : k ≤ infinity) (j : Nat) :
    ReadsBack k (search ties k j).1 (search ties k j).2 := by
  induction j with
  | zero =>
    unfold search
    cases h : onGrid? ties k 0 with
    | none =>
      rw [Option.getD_none]
      exact readsBack_below hk
    | some c =>
      rw [Option.getD_some]
      exact readsBack_of_onGrid? h
  | succ j ih =>
    unfold search
    split
    · next c h => exact readsBack_of_onGrid? h
    · exact ih

end Shortest

/-! ### Values -/

namespace Decimal

def value (d : Decimal) : ℚ := d.digits * 10 ^ d.exponent

theorem value_reduce (d : Decimal) : d.reduce.value = d.value := by
  induction d using reduce.induct with
  | case1 d zero ih =>
    have digits : d.digits = 10 * (d.digits / 10) := by omega
    rw [reduce, if_pos zero, ih, value, value, zpow_add_one₀ (by norm_num)]
    conv_rhs => rw [digits]
    push_cast
    ring
  | case2 d other => rw [reduce, if_neg other]

/-- The digits, with as many zeros as the point needs on either side. -/
def padded (d : Decimal) : List Char :=
  let ds := Nat.toDigits 10 d.digits ++ List.replicate d.exponent.toNat '0'
  List.replicate ((-d.exponent).toNat + 1 - ds.length) '0' ++ ds

lemma isDigit_of_mem_padded {d : Decimal} {c : Char} (hc : c ∈ d.padded) : c.isDigit := by
  have zero {n : Nat} (h : c ∈ List.replicate n '0') : c.isDigit := by
    rw [List.eq_of_mem_replicate h]
    decide
  rcases List.mem_append.mp hc with h | h
  · exact zero h
  · rcases List.mem_append.mp h with h | h
    · exact Nat.isDigit_of_mem_toDigits (by decide) (by decide) h
    · exact zero h

lemma length_padded (d : Decimal) : (-d.exponent).toNat < d.padded.length := by
  simp only [padded, List.length_append, List.length_replicate]
  omega

lemma ofDigitChars_padded (d : Decimal) :
    Nat.ofDigitChars 10 d.padded 0 = d.digits * 10 ^ d.exponent.toNat := by
  simp [padded, Nat.ofDigitChars_append, Nat.ofDigitChars_replicate_zero,
    Nat.ofDigitChars_ten_toDigits, Nat.mul_comm]

end Decimal

namespace Numeral

/-- The value, the sign left aside. -/
def value (n : Numeral) : ℚ := n.numerator / n.denominator

lemma denominator_pos (n : Numeral) : 0 < n.denominator := Nat.pow_pos (by decide)

lemma value_eq (n : Numeral) :
    n.value = Nat.ofDigitChars 10 (n.whole ++ n.fraction) 0 *
      10 ^ (n.exponent.getD 0 - n.fraction.length) := by
  have ten : (10 : ℚ) ≠ 0 := by norm_num
  have apart : n.exponent.getD 0 - n.fraction.length =
      (n.exponent.getD 0).toNat - ((n.fraction.length + (-n.exponent.getD 0).toNat : Nat) : ℤ) := by
    omega
  rw [apart, zpow_sub₀ ten, zpow_natCast, zpow_natCast, value, numerator, denominator,
    Nat.pow_eq, Nat.pow_eq]
  push_cast
  ring

end Numeral

namespace Decimal

/-- The point comes between the padded digits; if none is left behind it, a zero is put there. -/
lemma exists_positional_eq (negative : Bool) (d : Decimal) :
    ∃ us vs, d.padded = us ++ vs ∧ us ≠ [] ∧ vs.length = (-d.exponent).toNat ∧
      d.positional negative = ⟨negative, us, if vs.isEmpty then ['0'] else vs, none⟩ := by
  have long := d.length_padded
  refine ⟨d.padded.take (d.padded.length - (-d.exponent).toNat),
    d.padded.drop (d.padded.length - (-d.exponent).toNat),
    (List.take_append_drop _ _).symm, ?_, ?_, rfl⟩
  · rw [← List.length_pos_iff, List.length_take]
    omega
  · rw [List.length_drop]
    omega

/-- A decimal with a point among its digits: what it consists of, and that it is the same. -/
theorem positional_spec (negative : Bool) (d : Decimal) :
    (d.positional negative).negative = negative ∧ (d.positional negative).exponent = none ∧
    (d.positional negative).whole ≠ [] ∧ (d.positional negative).fraction ≠ [] ∧
    (∀ c ∈ (d.positional negative).whole, c.isDigit) ∧
    (∀ c ∈ (d.positional negative).fraction, c.isDigit) ∧
    (d.positional negative).value = d.value := by
  obtain ⟨us, vs, halves, whole, behind, eq⟩ := d.exists_positional_eq negative
  have digits := @isDigit_of_mem_padded d
  have number := d.ofDigitChars_padded
  rw [halves] at digits number
  have digits_us : ∀ c ∈ us, c.isDigit := fun c hc => digits (List.mem_append_left vs hc)
  have digits_vs : ∀ c ∈ vs, c.isDigit := fun c hc => digits (List.mem_append_right us hc)
  rw [Numeral.value_eq, eq]
  cases vs with
  | nil =>
    have natural : (d.exponent.toNat : ℤ) = d.exponent := by
      rw [List.length_nil] at behind
      omega
    refine ⟨rfl, rfl, whole, by simp, digits_us, by simp, ?_⟩
    rw [List.append_nil] at number
    have power : (10 : ℚ) ^ d.exponent = 10 ^ d.exponent.toNat := by
      rw [← zpow_natCast, natural]
    simp only [List.isEmpty_nil, if_true, Nat.ofDigitChars_append, number, value, power]
    simp [Nat.ofDigitChars_cons]
    field_simp
  | cons v vs =>
    have negative : d.exponent.toNat = 0 := by
      rw [List.length_cons] at behind
      omega
    have places : (0 : ℤ) - ((v :: vs).length : ℤ) = d.exponent := by omega
    refine ⟨rfl, rfl, whole, by simp, digits_us, digits_vs, ?_⟩
    rw [negative, pow_zero, Nat.mul_one] at number
    simp only [List.isEmpty_cons, Bool.false_eq_true, if_false, Option.getD_none, number, places,
      value]

theorem value_scientific (negative : Bool) (d : Decimal) :
    (d.scientific negative).value = d.value := by
  have split : (Nat.toDigits 10 d.digits).take 1 ++ (Nat.toDigits 10 d.digits).drop 1 =
      Nat.toDigits 10 d.digits := List.take_append_drop 1 _
  have place : d.leading - ((Nat.toDigits 10 d.digits).drop 1).length = d.exponent := by
    have := @Nat.length_toDigits_pos 10 d.digits
    rw [leading, List.length_drop]
    omega
  simp only [Numeral.value_eq, scientific, split, Nat.ofDigitChars_ten_toDigits,
    Option.getD_some, place, value]

end Decimal

namespace Numeral

/-- Every fraction with the value of the shortest decimal rounds to the double. -/
lemma nearest_shortest (ties : Ties) {x : Binary64} (hx : x.magnitude ≤ infinity) {num den : Nat}
    (hd : 0 < den) (h : (num : ℚ) / den = (x.shortest ties).value) :
    nearest num den = x.magnitude := by
  unfold shortest at h
  split at h
  · next zero =>
    have : num = 0 := by
      have : (num : ℚ) = 0 := by simpa [Decimal.value, div_eq_zero_iff, hd.ne'] using h
      exact_mod_cast this
    refine nearest_eq hx ?_
    rw [this, zero, show units 0 = 0 from rfl, Nat.mul_zero, Nat.zero_mul, Nat.dist_self]
    omega
  · have found := Shortest.search_readsBack ties hx (Shortest.leadingGrid x.magnitude)
    rw [Shortest.ReadsBack] at found
    rw [← found]
    refine nearest_congr hd (Nat.pow_pos (by decide)) (h.trans ?_)
    dsimp only
    rw [Decimal.value_reduce, Decimal.value, zpow_sub₀ (by norm_num), zpow_natCast,
      zpow_natCast, Nat.pow_eq, Nat.pow_eq]
    push_cast
    ring

/-- Every fraction with the value of a whole double rounds to it. -/
lemma nearest_whole {k : Nat} (hk : k ≤ infinity) (whole : one ∣ units k) {num den : Nat}
    (hd : 0 < den) (h : (num : ℚ) / den = (units k / one : Nat)) : nearest num den = k := by
  have exact : one * num = units k * den := by
    rw [div_eq_iff (Nat.cast_ne_zero.mpr hd.ne')] at h
    have : num = units k / one * den := by exact_mod_cast h
    rw [this, ← Nat.mul_assoc, Nat.mul_div_cancel' whole]
  refine nearest_eq hk ?_
  rw [exact, Nat.dist_self]
  omega

lemma magnitude_le_of_isFinite {x : Binary64} (hx : x.isFinite) : x.magnitude ≤ infinity := by
  have : x.magnitude < infinity := by simpa [isFinite] using hx
  exact this.le

lemma Style.nearest_decimal (s : Style) {x : Binary64} (hx : x.isFinite) {num den : Nat}
    (hd : 0 < den) (h : (num : ℚ) / den = (s.decimal x).value) :
    nearest num den = x.magnitude := by
  have finite := magnitude_le_of_isFinite hx
  unfold Style.decimal at h
  split at h
  · next whole =>
    have : s.wholeExact ∧ x.isFinite ∧ units x.magnitude % one = 0 := by
      simpa [isWhole] using whole
    rw [Decimal.value, zpow_zero, mul_one] at h
    exact nearest_whole finite (Nat.dvd_of_mod_eq_zero this.2.2) hd h
  · exact nearest_shortest s.ties finite hd h

lemma Style.value_numeral (s : Style) (x : Binary64) :
    (s.numeral x).value = (s.decimal x).value := by
  unfold Style.numeral
  dsimp only
  split
  · exact (Decimal.positional_spec _ _).2.2.2.2.2.2
  · exact Decimal.value_scientific _ _

lemma Style.negative_numeral (s : Style) (x : Binary64) :
    (s.numeral x).negative = x.negative := by
  unfold Style.numeral
  dsimp only
  split <;> rfl

/-- **Reading back**: in every style the numeral of a finite double is read as that double. -/
theorem Style.read_numeral (s : Style) {x : Binary64} (hx : x.isFinite) :
    (s.numeral x).read = x := by
  have magnitude := s.nearest_decimal hx (denominator_pos _) (s.value_numeral x)
  exact Binary64.ext (s.negative_numeral x) magnitude

end Numeral

end LoxLexer
