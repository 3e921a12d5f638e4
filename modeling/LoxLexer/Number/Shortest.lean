import LoxLexer.Number.Nearest

/-!
The fewest decimal digits that read back to a double, and among those the nearest to it.

The decimals `c * 10 ^ j` form a grid for each `j`. The search starts at the grid of the
leading digit and goes to finer ones; on each it looks at the two points around the double.
All grids are counted from the place `depth` behind the point, which is finer than any
double needs.
-/

namespace LoxLexer

/-- The decimal `digits * 10 ^ exponent`. -/
structure Decimal where
  digits : Nat
  exponent : Int
deriving DecidableEq

/-- Which of two decimals equally near to a double is taken. -/
inductive Ties where
  | away
  | even
deriving DecidableEq

namespace Decimal

/-- Moves the zeros at the end of the digits into the exponent. -/
def reduce (d : Decimal) : Decimal :=
  if d.digits % 10 = 0 ∧ d.digits ≠ 0 then reduce ⟨d.digits / 10, d.exponent + 1⟩ else d
termination_by d.digits
decreasing_by omega

/-- The power of ten of the leading digit. -/
def leading (d : Decimal) : Int := d.exponent + (Nat.toDigits 10 d.digits).length - 1

end Decimal

namespace Shortest

/-- The finest grid lies this many places behind the point. Proofs keep its power of ten closed. -/
@[irreducible] def depth : Nat := 340

/-- The value of the magnitude `k` on the finest grid, times `Binary64.one`. -/
def scaled (k : Nat) : Nat := Nat.pow 10 depth * Binary64.units k

/-- The decimal `c` on grid `j` reads back to the magnitude `k`. -/
def ReadsBack (k j c : Nat) : Prop :=
  Binary64.nearest (c * Nat.pow 10 j) (Nat.pow 10 depth) = k

instance (k j c : Nat) : Decidable (ReadsBack k j c) := inferInstanceAs (Decidable (_ = _))

/-- The point of grid `j` just below the magnitude `k`, or at it. -/
def below (k j : Nat) : Nat := scaled k / (Binary64.one * Nat.pow 10 j)

/-- Of the two points around `k` on grid `j`, the nearer one. -/
def nearer (ties : Ties) (k j : Nat) : Nat :=
  let c := below k j
  match compare (2 * scaled k) (Binary64.one * (Nat.pow 10 j * (2 * c + 1))), ties with
  | .lt, _ => c
  | .gt, _ => c + 1
  | .eq, .away => c + 1
  | .eq, .even => if c % 2 = 0 then c else c + 1

/-- The point of grid `j` to write for `k`, if one reads back. -/
def onGrid? (ties : Ties) (k j : Nat) : Option Nat :=
  let c := below k j
  if ReadsBack k j c then
    if ReadsBack k j (c + 1) then some (nearer ties k j) else some c
  else if ReadsBack k j (c + 1) then some (c + 1) else none

/-- The coarsest grid from `j` downwards with a point to write, and the point. The finest grid
always has one: the point below. -/
def search (ties : Ties) (k : Nat) : Nat → Nat × Nat
  | 0 => (0, (onGrid? ties k 0).getD (below k 0))
  | j + 1 =>
    match onGrid? ties k (j + 1) with
    | some c => (j + 1, c)
    | none => search ties k j

/-- The grid of the leading digit. -/
def leadingGrid (k : Nat) : Nat := (Nat.toDigits 10 (below k 0)).length - 1

end Shortest

/-- The shortest decimal of a finite double, its sign left aside. -/
def Binary64.shortest (ties : Ties) (x : Binary64) : Decimal :=
  if x.magnitude = 0 then ⟨0, 0⟩
  else
    let (j, c) := Shortest.search ties x.magnitude (Shortest.leadingGrid x.magnitude)
    Decimal.reduce ⟨c, j - Shortest.depth⟩

end LoxLexer
