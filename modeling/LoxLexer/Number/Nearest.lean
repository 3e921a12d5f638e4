import LoxLexer.Number.Binary64

/-!
The double nearest to a fraction, a tie going to the even neighbour.
-/

namespace LoxLexer

/-- The whole number nearest to `num / den`; of two, the even one. -/
def roundDiv (num den : Nat) : Nat :=
  let q := num / den
  let r := num % den
  if 2 * r < den ∨ 2 * r = den ∧ q % 2 = 0 then q else q + 1

namespace Binary64

/-- The exponent step that keeps 53 binary digits of a number of units. -/
def coarseness (q : Nat) : Nat := if q < 2 * binade then 0 else Nat.log2 q - 52

/-- The magnitude of the double nearest to `num / den`. The quotient is rounded to a multiple
of `2 ^ s` units, `s` its coarseness; from the midpoint above the last finite double upwards
that is infinity. -/
def nearest (num den : Nat) : Nat :=
  let s := coarseness (one * num / den)
  min (binade * s + roundDiv (one * num) (den <<< s)) infinity

theorem nearest_le (num den : Nat) : nearest num den ≤ infinity := Nat.min_le_right ..

end Binary64

end LoxLexer
