import LoxLexer.Proofs.Json.Writing
import LoxLexer.Proofs.Number.Shortest
import LoxLexer.Token.Json
import Mathlib.Data.List.DropRight

/-!
Numbers are written with the fewest digits.

A numeral counts by its value and its significant digits. These are the digits of a decimal without
zeros at the end, `exists_decimal`, so whatever is read as a double competes with its shortest
decimal, `minimal_of_value`, and it does not matter where the point or an exponent is put.
-/

namespace LoxLexer

namespace Numeral

/-! ### Significant digits -/

def Digital (n : Numeral) : Prop := ∀ c ∈ n.whole ++ n.fraction, c.isDigit

/-- The digits without the zeros at either end. -/
def significant (n : Numeral) : List Char :=
  ((n.whole ++ n.fraction).dropWhile (· == '0')).rdropWhile (· == '0')

lemma digitChar_of_isDigit {c : Char} (h : c.isDigit) :
    c.toNat - '0'.toNat < 10 ∧ Nat.digitChar (c.toNat - '0'.toNat) = c := by
  simp only [Char.isDigit, Bool.and_eq_true, decide_eq_true_eq] at h
  have low : 48 ≤ c.toNat := h.1
  have high : c.toNat ≤ 57 := h.2
  have zero : '0'.toNat = 48 := rfl
  have digits : ∀ d < 10, Nat.digitChar d = Char.ofNat (48 + d) := by decide
  refine ⟨by omega, ?_⟩
  rw [digits _ (by omega), zero, Nat.add_sub_cancel' low, Char.ofNat_toNat]

/-- Without zeros in front digits are those of the number that they spell. -/
lemma toDigits_ofDigitChars {ds : List Char} (digits : ∀ c ∈ ds, c.isDigit) (ne : ds ≠ [])
    (head : ds.head? ≠ some '0') : Nat.toDigits 10 (Nat.ofDigitChars 10 ds 0) = ds := by
  induction ds using List.reverseRecOn with
  | nil => exact absurd rfl ne
  | append_singleton us c ih =>
    obtain ⟨lt, same⟩ := digitChar_of_isDigit (digits c (by simp))
    have last (n : Nat) : Nat.ofDigitChars 10 [c] n = 10 * n + (c.toNat - '0'.toNat) := by
      rw [Nat.ofDigitChars_cons, Nat.ofDigitChars_nil]
    rw [Nat.ofDigitChars_append, last]
    by_cases nil : us = []
    · subst nil
      rw [Nat.ofDigitChars_nil, Nat.mul_zero, Nat.zero_add, Nat.toDigits_of_lt_base lt, same]
      rfl
    · rw [List.head?_append_of_ne_nil _ nil] at head
      have front := ih (fun d hd => digits d (by simp [hd])) nil head
      have pos : 0 < Nat.ofDigitChars 10 us 0 := by
        refine Nat.pos_of_ne_zero fun zero => ?_
        rw [zero] at front
        rw [← front] at head
        exact head rfl
      rw [← Nat.toDigits_append_toDigits (by decide) pos lt, front, Nat.toDigits_of_lt_base lt,
        same]

/-- Zeros are cut off at both ends. -/
lemma exists_zeros (ds : List Char) :
    ∃ a b, ds = List.replicate a '0' ++
        ((ds.dropWhile (· == '0')).rdropWhile (· == '0') ++ List.replicate b '0') := by
  have front : ∀ c ∈ ds.takeWhile (· == '0'), c = '0' := fun c hc => by
    simpa using List.mem_takeWhile_imp hc
  have back : ∀ c ∈ (ds.dropWhile (· == '0')).rtakeWhile (· == '0'), c = '0' := fun c hc => by
    simpa using List.mem_rtakeWhile_imp hc
  refine ⟨(ds.takeWhile (· == '0')).length,
    ((ds.dropWhile (· == '0')).rtakeWhile (· == '0')).length, ?_⟩
  rw [← List.eq_replicate_of_mem front, ← List.eq_replicate_of_mem back,
    List.rdropWhile_append_rtakeWhile, List.takeWhile_append_dropWhile]

lemma head?_significant {n : Numeral} (ne : n.significant ≠ []) :
    n.significant.head? ≠ some '0' := by
  intro zero
  unfold significant at ne zero
  obtain ⟨zeros, cut⟩ := List.rdropWhile_prefix (· == '0')
    (l := (n.whole ++ n.fraction).dropWhile (· == '0'))
  have head := List.head?_dropWhile_not (· == '0') (n.whole ++ n.fraction)
  rw [← cut, List.head?_append_of_ne_nil _ ne, zero] at head
  cases head

/-- A numeral that is not zero is a decimal without zeros at the end, and its significant digits
are those of this decimal. -/
lemma exists_decimal {n : Numeral} (digital : n.Digital) (pos : 0 < n.value) :
    ∃ d : Decimal, ¬ 10 ∣ d.digits ∧ d.value = n.value ∧
      n.significant = Nat.toDigits 10 d.digits := by
  obtain ⟨a, b, eq⟩ := exists_zeros (n.whole ++ n.fraction)
  have digits : ∀ c ∈ n.significant, c.isDigit := fun c hc =>
    digital c (by rw [eq]; exact List.mem_append_right _ (List.mem_append_left _ hc))
  have number : Nat.ofDigitChars 10 (n.whole ++ n.fraction) 0 =
      10 ^ b * Nat.ofDigitChars 10 n.significant 0 := by
    rw [eq, Nat.ofDigitChars_append, Nat.ofDigitChars_replicate_zero, Nat.mul_zero,
      Nat.ofDigitChars_append, Nat.ofDigitChars_replicate_zero]
    rfl
  have ne : n.significant ≠ [] := by
    intro nil
    rw [value_eq, number, nil, Nat.ofDigitChars_nil] at pos
    simp at pos
  refine ⟨⟨Nat.ofDigitChars 10 n.significant 0, n.exponent.getD 0 - n.fraction.length + b⟩,
    ?_, ?_, (toDigits_ofDigitChars digits ne (head?_significant ne)).symm⟩
  · have last : n.significant.getLast ne ≠ '0' := by
      simpa [significant] using List.rdropWhile_last_not (· == '0') _ ne
    obtain ⟨lt, same⟩ := digitChar_of_isDigit (digits _ (List.getLast_mem ne))
    have nonzero : (n.significant.getLast ne).toNat - '0'.toNat ≠ 0 := fun zero =>
      last (by rw [← same, zero]; rfl)
    rw [← List.dropLast_append_getLast ne, Nat.ofDigitChars_append, Nat.ofDigitChars_cons,
      Nat.ofDigitChars_nil]
    dsimp only
    omega
  · rw [value_eq, number, Decimal.value, zpow_add₀ (by norm_num), zpow_natCast]
    push_cast
    ring

/-! ### What is to be written -/

/-- The number that a numeral is. -/
def signedValue (n : Numeral) : ℚ := (if n.negative then -1 else 1) * n.value

/-- How far the numeral is from the double. -/
def error (n : Numeral) (x : Binary64) : ℚ := |n.signedValue - x.value|

/-- The last significant digit. -/
def lastDigit (n : Numeral) : Nat := Nat.ofDigitChars 10 n.significant 0 % 10

/-- The numeral has the sign of the double, and it is rounded to it. -/
structure ReadsAs (n : Numeral) (x : Binary64) : Prop where
  negative : n.negative = x.negative
  rounds : Binary64.Rounds n.value x.unsigned

/-- Of all numerals that are read as the double this one has the fewest significant digits. Of
those with as many digits it is the nearest, and the rule decides between two that are. -/
structure Minimal (ties : Ties) (x : Binary64) (n : Numeral) : Prop where
  digital : n.Digital
  reads : n.ReadsAs x
  fewest (m : Numeral) : m.Digital → m.ReadsAs x → n.significant.length ≤ m.significant.length
  nearest (m : Numeral) : m.Digital → m.ReadsAs x →
    m.significant.length = n.significant.length → n.error x ≤ m.error x
  away (m : Numeral) : ties = .away → m.Digital → m.ReadsAs x →
    m.significant.length = n.significant.length → m.error x = n.error x → m.value ≠ n.value →
    m.value < n.value
  even (m : Numeral) : ties = .even → m.Digital → m.ReadsAs x →
    m.significant.length = n.significant.length → m.error x = n.error x → m.value ≠ n.value →
    n.lastDigit % 2 = 0 ∧ m.lastDigit % 2 = 1

lemma error_eq {n : Numeral} {x : Binary64} (sign : n.negative = x.negative) :
    n.error x = |n.value - x.unsigned.value| := by
  rw [error, signedValue, sign, Binary64.value_unsigned]
  cases negative : x.negative with
  | false =>
    rw [Binary64.value_of_positive negative, if_neg (by decide), one_mul]
  | true =>
    rw [Binary64.value_of_negative negative, if_pos rfl, neg_one_mul, ← abs_neg]
    congr 1
    ring

/-- A numeral that is read as a double is a decimal that is. -/
lemma ReadsAs.exists_decimal {n : Numeral} {x : Binary64} (digital : n.Digital)
    (reads : n.ReadsAs x) (nonzero : x.magnitude ≠ 0) :
    ∃ d : Decimal, ¬ 10 ∣ d.digits ∧ Binary64.Rounds d.value x.unsigned ∧ d.value = n.value ∧
      n.significant.length = d.length ∧ n.lastDigit = d.digits % 10 ∧
      n.error x = |d.value - x.unsigned.value| := by
  obtain ⟨d, reduced, value, digits⟩ := n.exists_decimal digital (reads.rounds.pos nonzero)
  refine ⟨d, reduced, value ▸ reads.rounds, value, by rw [digits, Decimal.length], ?_, ?_⟩
  · rw [lastDigit, digits, Nat.ofDigitChars_ten_toDigits]
  · rw [error_eq reads.negative, value]

/-- The shortest decimal is a minimal numeral, however it is laid out. -/
theorem minimal_of_value {ties : Ties} {x : Binary64} {n : Numeral} (finite : x.isFinite)
    (nonzero : x.magnitude ≠ 0) (digital : n.Digital) (sign : n.negative = x.negative)
    (value : n.value = (x.shortest ties).value) : n.Minimal ties x := by
  obtain ⟨reduced, rounds, better⟩ := Binary64.shortest_better ties finite nonzero
  generalize x.shortest ties = d at *
  have reads : n.ReadsAs x := ⟨sign, value ▸ rounds⟩
  -- the layout may have put zeros at either end, but the decimal is told from its value
  obtain ⟨d', reduced', -, value', length, last, error⟩ := reads.exists_decimal digital nonzero
  obtain rfl : d' = d := Decimal.eq_of_value_eq reduced' reduced (value'.trans value)
  have other {m : Numeral} (hm : m.Digital) (hr : m.ReadsAs x) :
      ∃ e : Decimal, e.value = m.value ∧ m.significant.length = e.length ∧
        m.lastDigit = e.digits % 10 ∧ m.error x = |e.value - x.unsigned.value| ∧
        (e = d' ∨ d'.Better ties x e) := by
    obtain ⟨e, he, rounds, value, length, last, error⟩ := hr.exists_decimal hm nonzero
    exact ⟨e, value, length, last, error, or_iff_not_imp_left.mpr (better e he rounds)⟩
  refine ⟨digital, reads, fun m hm hr => ?_, fun m hm hr same => ?_,
    fun m rule hm hr same tie ne => ?_, fun m rule hm hr same tie ne => ?_⟩
  · obtain ⟨e, -, length', -, -, rfl | better⟩ := other hm hr
    · omega
    · cases better <;> omega
  · obtain ⟨e, -, length', -, error', rfl | better⟩ := other hm hr
    · rw [error, error']
    · rw [error, error']
      cases better with
      | fewer less => omega
      | nearer _ near => exact near.le
      | away _ _ tie => exact tie.le
      | even _ _ tie => exact tie.le
  · obtain ⟨e, value'', length', -, error', rfl | better⟩ := other hm hr
    · exact absurd (value''.symm.trans value') ne
    · cases better with
      | fewer less => omega
      | nearer _ near => exact absurd (error'.symm.trans (tie.trans error)) near.ne'
      | away _ _ _ larger => rwa [← value', ← value'']
      | even rule' => exact absurd (rule.symm.trans rule') (by decide)
  · obtain ⟨e, value'', length', last', error', rfl | better⟩ := other hm hr
    · exact absurd (value''.symm.trans value') ne
    · cases better with
      | fewer less => omega
      | nearer _ near => exact absurd (error'.symm.trans (tie.trans error)) near.ne'
      | away rule' => exact absurd (rule.symm.trans rule') (by decide)
      | even _ _ _ even odd => omega

/-- Two rules choose the same digits, or there is a tie. -/
lemma Minimal.eq_or_tie {ties ties' : Ties} {x : Binary64} {n m : Numeral}
    (hn : n.Minimal ties x) (hm : m.Minimal ties' x) (nonzero : x.magnitude ≠ 0) :
    n.value = m.value ∧ n.significant = m.significant ∨
      n.value ≠ m.value ∧ n.error x = m.error x := by
  have length : n.significant.length = m.significant.length :=
    (hn.fewest m hm.digital hm.reads).antisymm (hm.fewest n hn.digital hn.reads)
  have error : n.error x = m.error x :=
    (hn.nearest m hm.digital hm.reads length.symm).antisymm
      (hm.nearest n hn.digital hn.reads length)
  by_cases same : n.value = m.value
  · obtain ⟨d, hd, value, digits⟩ := n.exists_decimal hn.digital (hn.reads.rounds.pos nonzero)
    obtain ⟨e, he, value', digits'⟩ := m.exists_decimal hm.digital (hm.reads.rounds.pos nonzero)
    obtain rfl : d = e := Decimal.eq_of_value_eq hd he (value.trans (same.trans value'.symm))
    exact Or.inl ⟨same, digits.trans digits'.symm⟩
  · exact Or.inr ⟨same, error⟩

end Numeral

/-! ### What is written -/

lemma Numeral.Proper.digital {n : Numeral} (h : n.Proper) : n.Digital := fun c hc =>
  (List.mem_append.mp hc).elim (h.whole c) (h.fraction c)

lemma Numeral.Proper.denotes_text {n : Numeral} (h : n.Proper) :
    Json.Denotes n.text (.number n) := by
  have denotes := (Json.Proper.number h).denotes_render Json.Layout.spaced_compact
  rwa [Json.render, Json.write, String.empty_append] at denotes

namespace Decimal

lemma leading_spec {d : Decimal} (h : d.digits ≠ 0) :
    10 ^ d.leading ≤ d.value ∧ d.value < 10 ^ (d.leading + 1) := by
  obtain ⟨low, high⟩ := Shortest.toDigits_bounds h
  have length := @Nat.length_toDigits_pos 10 d.digits
  have leading : d.leading = ((Nat.toDigits 10 d.digits).length - 1 : Nat) + d.exponent := by
    rw [Decimal.leading]
    omega
  have next : d.leading + 1 =
      ((Nat.toDigits 10 d.digits).length - 1 + 1 : Nat) + d.exponent := by omega
  have ten : (10 : ℚ) ≠ 0 := by norm_num
  constructor
  · rw [leading, zpow_add₀ ten, zpow_natCast, value]
    gcongr
    exact_mod_cast low
  · rw [next, zpow_add₀ ten, zpow_natCast, value]
    gcongr
    exact_mod_cast high

end Decimal

namespace Binary64

lemma unsigned_value_eq_natAbs {x : Binary64} {z : ℤ} (h : x.value = z) :
    units x.magnitude = z.natAbs * one := by
  have pos : (0 : ℚ) < one := Nat.cast_pos.mpr one_pos
  have value := x.abs_value
  rw [h, value_unsigned, eq_div_iff pos.ne', ← Int.cast_abs, Int.abs_eq_natAbs,
    Int.cast_natCast] at value
  exact_mod_cast value.symm

/-- The doubles that are whole are those that a whole number is. -/
lemma isWhole_iff {x : Binary64} (finite : x.isFinite) : x.isWhole ↔ ∃ z : ℤ, x.value = z := by
  have unfolded : x.isWhole ↔ one ∣ units x.magnitude := by
    simp [isWhole, finite, Nat.dvd_iff_mod_eq_zero]
  rw [unfolded]
  constructor
  · rintro ⟨n, hn⟩
    have ne : (one : ℚ) ≠ 0 := Nat.cast_ne_zero.mpr one_pos.ne'
    have value : (units x.magnitude : ℚ) / one = n := by
      rw [hn]
      push_cast
      field_simp
    cases sign : x.negative with
    | false => exact ⟨n, by rw [value_of_positive sign, value, Int.cast_natCast]⟩
    | true => exact ⟨-n, by rw [value_of_negative sign, value, Int.cast_neg, Int.cast_natCast]⟩
  · rintro ⟨z, hz⟩
    exact ⟨z.natAbs, by rw [unsigned_value_eq_natAbs hz, Nat.mul_comm]⟩

lemma magnitude_ne_zero {x : Binary64} (h : x.value ≠ 0) : x.magnitude ≠ 0 := by
  intro zero
  have value := x.abs_value
  rw [value_unsigned, zero, show units 0 = 0 from rfl] at value
  exact h (by simpa using value)

end Binary64

namespace Literal

open Numeral

lemma minimal_style {x : Binary64} (finite : x.isFinite) (h : ∀ z : ℤ, x.value ≠ z) :
    (style.numeral x).Minimal .away x := by
  have nonzero : x.value ≠ 0 := fun zero => h 0 (by simpa using zero)
  have part : x.isWhole = false := by
    rw [← Bool.not_eq_true, Binary64.isWhole_iff finite]
    rintro ⟨z, hz⟩
    exact h z hz
  refine minimal_of_value finite (Binary64.magnitude_ne_zero nonzero)
    (style.proper_numeral finite).digital (style.negative_numeral x) ?_
  rw [style.value_numeral, Style.decimal, part]
  rfl

lemma minimal_jsonStyle {x : Binary64} (finite : x.isFinite) (h : x.value ≠ 0) :
    (jsonStyle.numeral x).Minimal .even x := by
  refine minimal_of_value finite (Binary64.magnitude_ne_zero h)
    (jsonStyle.proper_numeral finite).digital (jsonStyle.negative_numeral x) ?_
  rw [jsonStyle.value_numeral]
  rfl

lemma display_of_finite {x : Binary64} (finite : x.isFinite) :
    (number x).display = (style.numeral x).text := if_pos finite

lemma toJson_of_finite {x : Binary64} (finite : x.isFinite) :
    (number x).toJson = .number (jsonStyle.numeral x) := if_pos finite

lemma denotes_display {x : Binary64} (finite : x.isFinite) :
    Json.Denotes (number x).display (.number (style.numeral x)) := by
  rw [display_of_finite finite]
  exact (style.proper_numeral finite).denotes_text

lemma denotes_toJson {x : Binary64} (finite : x.isFinite) (l : Json.Layout) :
    Json.Denotes ((number x).toJson.render l) (.number (jsonStyle.numeral x)) := by
  rw [toJson_of_finite finite, Json.render, Json.write, String.empty_append]
  exact (jsonStyle.proper_numeral finite).denotes_text

/-- What is shown for a number has no exponent, whatever the number is. -/
lemma e_not_mem_display (x : Binary64) : 'e' ∉ (number x).display.toList := by
  by_cases finite : x.isFinite
  · have proper := style.proper_numeral finite
    have digit {ds : List Char} (digits : ∀ c ∈ ds, c.isDigit) : 'e' ∉ ds := fun mem =>
      absurd (digits 'e' mem) (by decide)
    have plain : (style.numeral x).exponent = none := rfl
    rw [display_of_finite finite, Numeral.text, String.toList_ofList, chars, plain]
    simp only [List.mem_append, not_or]
    refine ⟨⟨⟨?_, digit proper.whole⟩, ?_⟩, by simp⟩
    · split <;> decide
    · split
      · simp
      · simpa using digit proper.fraction
  · rw [display, if_neg finite]
    split
    · decide
    · split <;> decide

lemma display_of_whole {x : Binary64} (finite : x.isFinite) {z : ℤ} (h : x.value = z) :
    (number x).display = (if x.negative then "-" else "") ++ toString z.natAbs ++ ".0" := by
  have whole : x.isWhole := (Binary64.isWhole_iff finite).mpr ⟨z, h⟩
  have decimal : style.decimal x = ⟨z.natAbs, 0⟩ := by
    rw [Style.decimal, whole, Binary64.unsigned_value_eq_natAbs h,
      Nat.mul_div_cancel _ Binary64.one_pos]
    rfl
  have numeral : style.numeral x = ⟨x.negative, Nat.toDigits 10 z.natAbs, ['0'], none⟩ := by
    have length := @Nat.length_toDigits_pos 10 z.natAbs
    rw [Style.numeral, decimal]
    simp [style, Decimal.positional, Nat.sub_eq_zero_of_le length]
  rw [display_of_finite finite, numeral, ← String.toList_inj, Numeral.text, chars]
  cases x.negative <;> simp [Nat.toList_repr]

lemma exponent_jsonStyle {x : Binary64} (finite : x.isFinite) (h : x.value ≠ 0) :
    ∃ e : ℤ, 10 ^ e ≤ (jsonStyle.numeral x).value ∧ (jsonStyle.numeral x).value < 10 ^ (e + 1) ∧
      (jsonStyle.numeral x).exponent = if e < -5 ∨ 15 < e then some e else none := by
  obtain ⟨reduced, -, -⟩ := Binary64.shortest_better .even finite (Binary64.magnitude_ne_zero h)
  have nonzero : (jsonStyle.decimal x).digits ≠ 0 := fun zero => reduced (by
    rw [show x.shortest .even = jsonStyle.decimal x from rfl, zero]
    exact dvd_zero 10)
  obtain ⟨low, high⟩ := Decimal.leading_spec nonzero
  refine ⟨(jsonStyle.decimal x).leading, ?_, ?_, ?_⟩
  · rwa [jsonStyle.value_numeral]
  · rwa [jsonStyle.value_numeral]
  · unfold Style.numeral
    dsimp only
    generalize jsonStyle.decimal x = d
    have positional : jsonStyle.isPositional d.leading ↔ ¬ (d.leading < -5 ∨ 15 < d.leading) := by
      simp [jsonStyle]
    by_cases far : d.leading < -5 ∨ 15 < d.leading
    · rw [if_pos far, if_neg (positional.not.mpr (not_not.mpr far))]
      rfl
    · rw [if_neg far, if_pos (positional.mpr far)]
      rfl

end Literal

/-- **Digits**: a double is shown and written in JSON with the fewest digits that are read as it,
and of those the nearest; on a tie it is shown farther from zero, and JSON takes the even digit.
Whole numbers are shown to the last digit. An exponent is only in JSON, for very small and very
large numbers. -/
theorem numbers_have_fewest_digits (x : Binary64) :
    'e' ∉ (Literal.number x).display.toList ∧
    (x.isFinite → ∃ n m : Numeral,
      Json.Denotes (Literal.number x).display (.number n) ∧ n.exponent = none ∧
      (∀ l, Json.Denotes ((Literal.number x).toJson.render l) (.number m)) ∧
      ((∀ z : ℤ, x.value ≠ z) → n.Minimal .away x ∧
        (n.value = m.value ∧ n.significant = m.significant ∨
          n.value ≠ m.value ∧ n.error x = m.error x)) ∧
      (∀ z : ℤ, x.value = z →
        (Literal.number x).display =
          (if x.negative then "-" else "") ++ toString z.natAbs ++ ".0") ∧
      (x.value ≠ 0 → m.Minimal .even x ∧
        ∃ e : ℤ, 10 ^ e ≤ m.value ∧ m.value < 10 ^ (e + 1) ∧
          m.exponent = if e < -5 ∨ 15 < e then some e else none)) := by
  refine ⟨Literal.e_not_mem_display x, fun finite => ⟨_, _, Literal.denotes_display finite, rfl,
    Literal.denotes_toJson finite, fun part => ?_, fun z => Literal.display_of_whole finite,
    fun nonzero => ?_⟩⟩
  · have nonzero : x.value ≠ 0 := fun zero => part 0 (by simpa using zero)
    have shown := Literal.minimal_style finite part
    have written := Literal.minimal_jsonStyle finite nonzero
    exact ⟨shown, shown.eq_or_tie written (Binary64.magnitude_ne_zero nonzero)⟩
  · exact ⟨Literal.minimal_jsonStyle finite nonzero, Literal.exponent_jsonStyle finite nonzero⟩

/-- A double in the middle between the two decimals with its digits that are nearest to it, and a
whole one. -/
theorem numbers_have_fewest_digits_at_tie :
    let x : Binary64 := ⟨false, 0x4310000000000001, by decide⟩
    let y : Binary64 := ⟨false, 0x4341C37937E08000, by decide⟩
    x.isFinite ∧ (∀ z : ℤ, x.value ≠ z) ∧ x.value ≠ 0 ∧
    (Literal.number x).display = "1125899906842624.3" ∧
    (Literal.number x).toJson.render .compact = "1125899906842624.2" ∧
    (∃ n m : Numeral, n.Minimal .away x ∧ m.Minimal .even x ∧
      n.significant ≠ m.significant ∧ n.error x = m.error x) ∧
    y.isFinite ∧ y.value = (10000000000000000 : ℤ) ∧
    (Literal.number y).display = "10000000000000000.0" := by
  intro x y
  have finite : x.isFinite := by decide
  have value : x.value = 4503599627370497 / 4 := by
    have significand : x.significand = 4503599627370497 := by decide +kernel
    have power : x.power = -2 := by decide +kernel
    rw [Binary64.value, significand, power]
    norm_num [x]
  have part (z : ℤ) : x.value ≠ z := by
    intro same
    rw [value, div_eq_iff (by norm_num)] at same
    have : (4503599627370497 : ℤ) = z * 4 := by exact_mod_cast same
    omega
  have nonzero : x.value ≠ 0 := by
    rw [value]
    norm_num
  have display : (Literal.number x).display = "1125899906842624.3" := by decide +kernel
  have json : (Literal.number x).toJson.render .compact = "1125899906842624.2" := by
    decide +kernel
  let whole := ['1', '1', '2', '5', '8', '9', '9', '9', '0', '6', '8', '4', '2', '6', '2', '4']
  obtain ⟨-, written⟩ := numbers_have_fewest_digits x
  obtain ⟨n, m, shown, -, sent, fewest, -, minimal⟩ := written finite
  obtain ⟨minimal_n, digits⟩ := fewest part
  have proper (c : Char) (hc : c.isDigit) : Numeral.Proper ⟨false, whole, [c], none⟩ :=
    ⟨by simp [whole], by simp [whole], by simp [whole], by simpa using hc⟩
  have three : Numeral.text ⟨false, whole, ['3'], none⟩ = "1125899906842624.3" := by decide
  have two : Numeral.text ⟨false, whole, ['2'], none⟩ = "1125899906842624.2" := by decide
  have sent := sent .compact
  rw [display, ← three] at shown
  rw [json, ← two] at sent
  obtain rfl : n = ⟨false, whole, ['3'], none⟩ := Json.Value.number.inj
    ((proper '3' (by decide)).denotes_text.unique _ shown.document)
  obtain rfl : m = ⟨false, whole, ['2'], none⟩ := Json.Value.number.inj
    ((proper '2' (by decide)).denotes_text.unique _ sent.document)
  have other : Numeral.significant ⟨false, whole, ['3'], none⟩ ≠
      Numeral.significant ⟨false, whole, ['2'], none⟩ := by decide
  have tie := (digits.resolve_left fun same => other same.2).2
  have finite_y : y.isFinite := by decide
  have value_y : y.value = (10000000000000000 : ℤ) := by
    have significand : y.significand = 5000000000000000 := by decide +kernel
    have power : y.power = 1 := by decide +kernel
    rw [Binary64.value, significand, power]
    norm_num [y]
  obtain ⟨-, written_y⟩ := numbers_have_fewest_digits y
  obtain ⟨-, -, -, -, -, -, exact_y, -⟩ := written_y finite_y
  exact ⟨finite, part, nonzero, display, json,
    ⟨_, _, minimal_n, (minimal nonzero).1, other, tie⟩, finite_y, value_y, exact_y _ value_y⟩

end LoxLexer
