/-!
Doubles, as a sign and the number that the other 63 bits spell.

The magnitudes `0, 1, 2, …` spell the non-negative doubles in increasing order, `infinity`
after the last finite one and the NaNs behind it. `units` is the value of a magnitude,
counted in the least positive double.
-/

namespace LoxLexer

/-- The number of doubles that share an exponent. -/
def binade : Nat := 0x10000000000000

@[ext] structure Binary64 where
  negative : Bool
  magnitude : Nat
  magnitude_lt : magnitude < 0x8000000000000000 := by omega

namespace Binary64

/-- The magnitude of the two infinities. -/
def infinity : Nat := 0x7FF0000000000000

def ofBits (bits : Nat) : Binary64 where
  negative := bits / 0x8000000000000000 % 2 == 1
  magnitude := bits % 0x8000000000000000

def bits (x : Binary64) : Nat :=
  if x.negative then 0x8000000000000000 + x.magnitude else x.magnitude

def isFinite (x : Binary64) : Bool := x.magnitude < infinity

def isNaN (x : Binary64) : Bool := infinity < x.magnitude

/-- Two doubles are equal as numbers: the zeros are one number, and a NaN equals nothing. -/
def equal (x y : Binary64) : Bool :=
  !x.isNaN && !y.isNaN &&
    (x.magnitude == y.magnitude && x.negative == y.negative ||
      x.magnitude == 0 && y.magnitude == 0)

@[simp] theorem bits_ofBits_of_lt {n : Nat} (h : n < 0x10000000000000000) :
    (ofBits n).bits = n := by
  simp only [bits, ofBits, beq_iff_eq]
  split <;> omega

@[simp] theorem ofBits_bits (x : Binary64) : ofBits x.bits = x := by
  obtain ⟨n, m, h⟩ := x
  cases n
  · simp only [bits, ofBits, Bool.false_eq_true, if_false, mk.injEq, beq_eq_false_iff_ne]
    omega
  · simp only [bits, ofBits, if_true, mk.injEq, beq_iff_eq]
    omega

theorem bits_inj {x y : Binary64} : x.bits = y.bits ↔ x = y :=
  ⟨fun same => by rw [← ofBits_bits x, same, ofBits_bits], congrArg bits⟩

/-- How many units the number one is, the unit being the least positive double. It has more than
three hundred digits, so proofs keep it closed. -/
@[irreducible] def one : Nat := Nat.pow 2 1074

/-- The value of a magnitude in units. Doubles lie one unit apart up to the end of the
second binade, and twice as far apart in each further one. -/
def units (k : Nat) : Nat :=
  if k < binade then k else (binade + k % binade) <<< (k / binade - 1)

/-- A finite double without a fractional part. -/
def isWhole (x : Binary64) : Bool := x.isFinite && units x.magnitude % one == 0

end Binary64

end LoxLexer
