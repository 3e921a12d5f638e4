import LoxLexer.Number.Numeral
import LoxLexer.Number.Shortest

/-!
Finite doubles written as numerals. A `Numeral.Style` holds the decisions of a format; the
digits are the shortest that read back.
-/

namespace LoxLexer

namespace Decimal

/-- The digits with a point among them, and at least one digit on either side of it. -/
def positional (negative : Bool) (d : Decimal) : Numeral :=
  let places := (-d.exponent).toNat
  let ds := Nat.toDigits 10 d.digits ++ List.replicate d.exponent.toNat '0'
  let padded := List.replicate (places + 1 - ds.length) '0' ++ ds
  let fraction := padded.drop (padded.length - places)
  ⟨negative, padded.take (padded.length - places),
    if fraction.isEmpty then ['0'] else fraction, none⟩

/-- One digit, the others behind a point, and the power of ten of the first. -/
def scientific (negative : Bool) (d : Decimal) : Numeral :=
  let ds := Nat.toDigits 10 d.digits
  ⟨negative, ds.take 1, ds.drop 1, some d.leading⟩

end Decimal

namespace Numeral

structure Style where
  ties : Ties
  /-- Doubles without a fractional part are written digit by digit, to the last one. -/
  wholeExact : Bool
  /-- The powers of ten of a leading digit at which no exponent is written. -/
  isPositional : Int → Bool

/-- The decimal that is written for a finite double. -/
def Style.decimal (s : Style) (x : Binary64) : Decimal :=
  if s.wholeExact && x.isWhole then ⟨Binary64.units x.magnitude / Binary64.one, 0⟩
  else x.shortest s.ties

/-- The numeral of a finite double. -/
def Style.numeral (s : Style) (x : Binary64) : Numeral :=
  let d := s.decimal x
  if s.isPositional d.leading then d.positional x.negative else d.scientific x.negative

end Numeral

end LoxLexer
