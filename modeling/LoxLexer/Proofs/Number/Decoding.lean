import LoxLexer.Proofs.JsonDump
import LoxLexer.Proofs.Number.Rounding

/-!
Numbers of a source are rounded correctly.

The lexeme of a number expresses an exact fraction, however many digits it has: `Expresses`. What
the number is decoded to is this fraction, rounded to a double, and no other double is.
-/

namespace LoxLexer

open Grammar

/-- The number that the digits of a text express. -/
inductive Grammar.Expresses : List Char → ℚ → Prop where
  | whole {ds} (digits : Digits ds) : Expresses ds (Nat.ofDigitChars 10 ds 0)
  | decimal {ds fs} (digits : Digits ds) (fraction : Digits fs) :
    Expresses (ds ++ '.' :: fs)
      (Nat.ofDigitChars 10 ds 0 + Nat.ofDigitChars 10 fs 0 / 10 ^ fs.length)

namespace Numeral

lemma value_ofDigits (whole fraction : List Char) :
    (ofDigits whole fraction).value =
      Nat.ofDigitChars 10 whole 0 + Nat.ofDigitChars 10 fraction 0 / 10 ^ fraction.length := by
  have power : (0 : ℤ) - fraction.length = -(fraction.length : ℤ) := zero_sub _
  simp only [value_eq, ofDigits, Option.getD_none, power, zpow_neg, zpow_natCast,
    Nat.ofDigitChars_append]
  rw [Nat.ofDigitChars_eq_ofDigitChars_zero]
  push_cast
  field_simp

/-- A numeral without a sign is read as its value, rounded. -/
lemma rounds_read {n : Numeral} (h : n.negative = false) : Binary64.Rounds n.value n.read :=
  Binary64.rounds_nearest n.denominator_pos h rfl

end Numeral

/-- A text that expresses a number is spelled as one, and decoded to this number, rounded. -/
lemma Grammar.Expresses.spells {w : List Char} {q : ℚ} (h : Expresses w q) :
    ∃ x, Kind.number.Spells w (some (.number x)) ∧ Binary64.Rounds q x := by
  cases h with
  | whole digits =>
    have value : (Numeral.ofDigits w []).value = Nat.ofDigitChars 10 w 0 := by
      rw [Numeral.value_ofDigits]
      simp
    exact ⟨_, .whole digits, value ▸ Numeral.rounds_read rfl⟩
  | @decimal ds fs digits fraction =>
    exact ⟨_, .decimal digits fraction, Numeral.value_ofDigits ds fs ▸ Numeral.rounds_read rfl⟩

lemma Kind.Spells.expresses {w : List Char} {literal : Option Literal}
    (h : Kind.number.Spells w literal) : ∃ q, Expresses w q := by
  cases h with
  | whole digits => exact ⟨_, .whole digits⟩
  | decimal digits fraction => exact ⟨_, .decimal digits fraction⟩

/-- **Numbers**: the lexeme of a number expresses a fraction, and the number is decoded to the one
double that the fraction is rounded to. -/
theorem numbers_rounded {ρ : Type} [Reporter ρ] (source : String) (r : ρ) (t : Token)
    (ht : t ∈ (scan source r).tokens) (number : t.kind = .number) :
    (∃ q, Expresses t.lexeme.toList q) ∧
    ∀ q, Expresses t.lexeme.toList q →
      ∃ x, t.literal = some (.number x) ∧ ∀ y, Binary64.Rounds q y ↔ y = x := by
  have scanned := Token.scanned_of_mem (Array.mem_toList_iff.mpr ht)
  have spells := scanned.spells_number number
  refine ⟨spells.expresses, fun q expresses => ?_⟩
  obtain ⟨x, spells', rounds⟩ := expresses.spells
  refine ⟨x, spells.literal_unique spells', fun y => ⟨fun rounds' => rounds'.unique rounds, ?_⟩⟩
  rintro rfl
  exact rounds

/-- The first whole number that is no double, behind a minus that is no part of it. It lies in the
middle of two doubles. -/
theorem numbers_rounded_at_midpoint :
    let x : Binary64 := ⟨false, 0x4340000000000000, by decide⟩
    let t : Token := ⟨.number, "9007199254740993", some (.number x), 1⟩
    t ∈ (scan "-9007199254740993" (#[] : Array Diagnostic)).tokens ∧ t.kind = .number ∧
    Expresses t.lexeme.toList 9007199254740993 ∧ x.value = 9007199254740992 ∧
    ∀ y, Binary64.Rounds 9007199254740993 y ↔ y = x := by
  intro x t
  let ds := ['9', '0', '0', '7', '1', '9', '9', '2', '5', '4', '7', '4', '0', '9', '9', '3']
  have lexeme : t.lexeme.toList = ds := by decide
  have text : "-9007199254740993".toList = '-' :: ds := by decide
  have digits : Digits ds := by simp [Digits, Digit, ds]
  have proper : (Piece.number ds []).Proper :=
    ⟨(Piece.digits_iff.mp digits).1, (Piece.digits_iff.mp digits).2, by simp⟩
  have cuts : Piece.Cuts ('-' :: ds) [.mark .minus, .number ds []] := by
    refine .cons (p := .mark .minus) trivial ?_
      (.cons (p := .number ds []) proper (Piece.stops_nil _) .nil)
    simp [Piece.Stops, Mark.Joins]
  have read : (Numeral.ofDigits ds []).read = x := Binary64.ext rfl (by decide +kernel)
  have tokens : (scan "-9007199254740993" (#[] : Array Diagnostic)).tokens.toList =
      [⟨.mark .minus, "-", none, 1⟩,
        ⟨.number, "9007199254740993", some (.number (Numeral.ofDigits ds []).read), 1⟩,
        .endOfFile 1] := by
    rw [tokens_scan, itemsOf, Scanner.items_eq (text ▸ cuts)]
    rfl
  rw [read] at tokens
  have mem : t ∈ (scan "-9007199254740993" (#[] : Array Diagnostic)).tokens := by
    rw [← Array.mem_toList_iff, tokens]
    simp [t]
  have expresses : Expresses t.lexeme.toList 9007199254740993 := by
    have whole := Expresses.whole digits
    rwa [show Nat.ofDigitChars 10 ds 0 = 9007199254740993 by decide, ← lexeme] at whole
  have value : x.value = 9007199254740992 := by
    have significand : x.significand = 4503599627370496 := by decide +kernel
    have power : x.power = 1 := by decide +kernel
    rw [Binary64.value, significand, power]
    norm_num [x]
  obtain ⟨-, rounded⟩ := numbers_rounded _ _ t mem rfl
  obtain ⟨y, literal, rounds⟩ := rounded _ expresses
  obtain rfl : x = y := Literal.number.inj (Option.some.inj literal)
  exact ⟨mem, rfl, expresses, value, rounds⟩

end LoxLexer
