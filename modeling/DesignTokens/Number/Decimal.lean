import DesignTokens.Number.Binary64

/-!
# Decimals

A decimal is a whole number of digits and a power of ten.  `Binary64.ofDecimal` is the number
nearest to a decimal, and `Binary64.shortest` the decimal with the fewest digits that is read back
as the number; of several such decimals it is the nearest to the number.

A number may lie in the middle between two such decimals; a `Tie` says which of them is taken.

The search needs two candidates for each count of digits, the neighbours of the number on the grid
with that many digits: if any decimal of the grid is read back as the number, one of these is.
-/

namespace DesignTokens

/-- The value `digits * 10 ^ exponent`. -/
structure Decimal where
  digits : Nat
  exponent : Int
  deriving DecidableEq, Repr

namespace Binary64

/-- The number nearest to a decimal.  The two bounds come first so that no power of ten is formed
for a decimal that lies out of range on sight. -/
def ofDecimal (negative : Bool) (d : Decimal) : Binary64 :=
  if d.digits = 0 then zero negative
  else match d.exponent with
    | .ofNat e =>
      if 310 ≤ e then .infinite negative else ofRatio negative (d.digits * Nat.pow 10 e) 1
    | .negSucc e =>
      if d.digits.log2 + 1 + 1076 ≤ 3 * (e + 1) then zero negative
      else ofRatio negative d.digits (Nat.pow 10 (e + 1))

end Binary64

namespace Decimal

/-- The same value without trailing zeros; `fuel` bounds their count. -/
def strip : Nat → Decimal → Decimal
  | 0, d => d
  | fuel + 1, d =>
    if d.digits ≠ 0 ∧ d.digits % 10 = 0 then strip fuel ⟨d.digits / 10, d.exponent + 1⟩ else d

/-- A quotient times a power of ten. -/
def scale (numerator denominator : Nat) : Int → Nat × Nat
  | .ofNat p => (numerator * Nat.pow 10 p, denominator)
  | .negSucc p => (numerator, denominator * Nat.pow 10 (p + 1))

end Decimal

namespace Binary64

/-- Which of two equally near decimals is taken. -/
inductive Tie where
  /-- The one whose last digit is even. -/
  | toEven
  /-- The one that lies farther from zero. -/
  | up
  deriving DecidableEq

/-- How many digits stand before the decimal point of a positive magnitude; a negative count is one
of zeros after the point. -/
def decimalPoint (magnitude : Nat) : Int :=
  (Nat.toDigits 10 (magnitude * Nat.pow 10 400 / one)).length - 400

/-- Whether the number nearest to a decimal is the positive one of a magnitude. -/
def readsBack (magnitude : Nat) (d : Decimal) : Bool :=
  match ofDecimal false d with
  | .finite _ m _ => m == magnitude
  | _ => false

/-- A magnitude on a grid of decimals: a quotient of steps that are `10 ^ exponent` wide. -/
structure OnGrid where
  numerator : Nat
  denominator : Nat
  exponent : Int

namespace OnGrid

/-- The neighbour that does not lie above. -/
def below (x : OnGrid) : Decimal := ⟨x.numerator / x.denominator, x.exponent⟩

/-- The next one. -/
def above (x : OnGrid) : Decimal := ⟨x.numerator / x.denominator + 1, x.exponent⟩

/-- Whether the lower neighbour is the nearer one, or else the one to take of two that are equally
near. -/
def prefersBelow (tie : Tie) (x : OnGrid) : Bool :=
  let twice := 2 * (x.numerator % x.denominator)
  twice < x.denominator ||
    twice == x.denominator && tie == .toEven && x.below.digits % 2 == 0

/-- The neighbour that reads back as the magnitude, the nearer one if both do. -/
def readBack? (tie : Tie) (magnitude : Nat) (x : OnGrid) : Option Decimal :=
  match readsBack magnitude x.below, readsBack magnitude x.above with
  | true, true => some (if x.prefersBelow tie then x.below else x.above)
  | true, false => some x.below
  | false, true => some x.above
  | false, false => none

end OnGrid

/-- A positive magnitude on the grid of decimals with `count` digits. -/
def onGrid (magnitude count : Nat) : OnGrid :=
  let power := (count : Int) - decimalPoint magnitude
  let scaled := Decimal.scale magnitude one power
  ⟨scaled.1, scaled.2, -power⟩

/-- The decimal with `count` digits that is taken for a positive magnitude, if one reads back. -/
def shortestOf? (tie : Tie) (magnitude count : Nat) : Option Decimal :=
  (onGrid magnitude count).readBack? tie magnitude

/-- The shortest decimal of a positive magnitude.  Seventeen digits always suffice. -/
def shortest (tie : Tie) (magnitude : Nat) : Decimal :=
  (((List.range' 1 17).findSome? (shortestOf? tie magnitude)).getD ⟨0, 0⟩).strip 20

end Binary64

end DesignTokens
