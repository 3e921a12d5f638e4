import LoxLexer.Number.Nearest

/-!
Numbers as they are written: digits, perhaps a point with more digits, perhaps a power of
ten. `read` gives a numeral of any length the double nearest to the fraction it denotes.
-/

namespace LoxLexer

structure Numeral where
  negative : Bool
  whole : List Char
  /-- The digits behind the point; with none of them there is no point. -/
  fraction : List Char
  exponent : Option Int

namespace Numeral

def ofDigits (whole fraction : List Char) : Numeral := ⟨false, whole, fraction, none⟩

def numerator (n : Numeral) : Nat :=
  Nat.ofDigitChars 10 (n.whole ++ n.fraction) 0 * Nat.pow 10 (n.exponent.getD 0).toNat

def denominator (n : Numeral) : Nat :=
  Nat.pow 10 (n.fraction.length + (-n.exponent.getD 0).toNat)

def read (n : Numeral) : Binary64 where
  negative := n.negative
  magnitude := Binary64.nearest n.numerator n.denominator
  magnitude_lt := by
    have := Binary64.nearest_le n.numerator n.denominator
    simp only [Binary64.infinity] at this
    omega

/-- An exponent is written with its sign, also a positive one. -/
def exponentText (e : Int) : List Char :=
  'e' :: (if e < 0 then '-' else '+') :: Nat.toDigits 10 e.natAbs

def chars (n : Numeral) : List Char :=
  (if n.negative then ['-'] else []) ++ n.whole ++
    (if n.fraction.isEmpty then [] else '.' :: n.fraction) ++
    (n.exponent.map exponentText).getD []

def text (n : Numeral) : String := String.ofList n.chars

end Numeral

end LoxLexer
