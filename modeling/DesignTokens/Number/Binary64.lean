/-!
# Binary64 numbers

A finite binary64 number is a sign and a whole number of *units*, the unit being the least positive
number `2 ^ -1074`.  Which magnitudes occur is said by `Representable`: the magnitude is a multiple
of the spacing of the numbers of its size, and lies below the overflow limit.

Every operation follows one pattern: find the exact result as a quotient of naturals, counted in
units, and round it once with `ofUnits`.

* `roundEven` is the nearest whole number to a quotient, ties going to the even neighbour;
* `ofUnits` is the nearest representable magnitude, or infinity beyond the limit;
* `numericallyEqual`, `<` and `≤` compare values: a NaN compares with nothing, the two zeros are
  the same.

Equality of two `Binary64` (`=`) is finer than `numericallyEqual` on zeros and coarser on NaN: there
is one NaN, and it equals itself.

Powers in definitions are written `Nat.pow`, since what `^` stands for depends on the imports.
-/

namespace DesignTokens

namespace Binary64

/-- How many bits a significand has. -/
def precision : Nat := 53

/-- The number one, counted in units. -/
def one : Nat := Nat.pow 2 1074

/-- The first magnitude that is too large. -/
def overflowLimit : Nat := Nat.pow 2 2098

/-- The distance between neighbouring numbers around a magnitude. -/
def spacing (magnitude : Nat) : Nat := Nat.pow 2 (magnitude.log2 + 1 - precision)

theorem spacing_pos (magnitude : Nat) : 0 < spacing magnitude := Nat.two_pow_pos _

/-- The magnitudes of the finite numbers. -/
def Representable (magnitude : Nat) : Prop :=
  magnitude % spacing magnitude = 0 ∧ magnitude < overflowLimit

instance (magnitude : Nat) : Decidable (Representable magnitude) :=
  inferInstanceAs (Decidable (_ ∧ _))

theorem representable_zero : Representable 0 := by decide +kernel

end Binary64

/-- A binary64 number. -/
inductive Binary64 where
  | nan
  | infinite (negative : Bool)
  | finite (negative : Bool) (magnitude : Nat) (representable : Binary64.Representable magnitude)
  deriving DecidableEq

namespace Binary64

/-! ## Rounding -/

/-- The whole number nearest to a quotient; of two equally near ones the even one. -/
def roundEven (numerator denominator : Nat) : Nat :=
  let quotient := numerator / denominator
  let twice := 2 * (numerator % denominator)
  if twice < denominator then quotient
  else if denominator < twice then quotient + 1
  else quotient + quotient % 2

/-- The number nearest to a quotient of units, or infinity when that is too large. -/
def ofUnits (negative : Bool) (numerator denominator : Nat) : Binary64 :=
  let step := spacing (numerator / denominator)
  let rounded := roundEven numerator (denominator * step) * step
  if h : Representable rounded then .finite negative rounded h else .infinite negative

/-- The number nearest to a quotient. -/
def ofRatio (negative : Bool) (numerator denominator : Nat) : Binary64 :=
  ofUnits negative (numerator * one) denominator

/-- The number nearest to a whole number. -/
def ofNat (n : Nat) : Binary64 := ofRatio false n 1

instance (n : Nat) : OfNat Binary64 n := ⟨ofNat n⟩

/-- Zero with a sign. -/
def zero (negative : Bool) : Binary64 := .finite negative 0 representable_zero

instance : Inhabited Binary64 := ⟨zero false⟩

/-! ## Arithmetic -/

def mul : Binary64 → Binary64 → Binary64
  | .nan, _ | _, .nan => .nan
  | .infinite s, .infinite t => .infinite (s != t)
  | .infinite s, .finite t n _ | .finite t n _, .infinite s =>
    if n = 0 then .nan else .infinite (s != t)
  | .finite s m _, .finite t n _ => ofUnits (s != t) (m * n) one

def div : Binary64 → Binary64 → Binary64
  | .nan, _ | _, .nan => .nan
  | .infinite _, .infinite _ => .nan
  | .infinite s, .finite t _ _ => .infinite (s != t)
  | .finite s _ _, .infinite t => zero (s != t)
  | .finite s m _, .finite t n _ =>
    if n = 0 then if m = 0 then .nan else .infinite (s != t)
    else ofRatio (s != t) m n

instance : Mul Binary64 := ⟨mul⟩
instance : Div Binary64 := ⟨div⟩

def neg : Binary64 → Binary64
  | .nan => .nan
  | .infinite s => .infinite (!s)
  | .finite s m h => .finite (!s) m h

instance : Neg Binary64 := ⟨neg⟩

/-- A magnitude in units to the nearest whole number, halves going up. -/
def wholePart (magnitude : Nat) : Nat := (magnitude + one / 2) / one

/-- To the nearest whole number, halves going away from zero; the sign stays, on zero too. -/
def round : Binary64 → Binary64
  | .finite s m _ => ofRatio s (wholePart m) 1
  | x => x

/-- The nearest whole number within bounds; no number goes to zero. -/
def toIntClamped (low high : Int) : Binary64 → Int
  | .nan => 0
  | .infinite true => low
  | .infinite false => high
  | .finite s m _ =>
    let whole : Int := if s then -(m / one : Nat) else (m / one : Nat)
    max low (min high whole)

/-! ## Comparison -/

def isFinite : Binary64 → Bool
  | .finite .. => true
  | _ => false

def isNaN : Binary64 → Bool
  | .nan => true
  | _ => false

/-- The signed count of units of a finite number. -/
def signed (negative : Bool) (magnitude : Nat) : Int :=
  if negative then -(magnitude : Int) else magnitude

/-- Equality of values: the zeros agree, and a NaN agrees with nothing. -/
def numericallyEqual : Binary64 → Binary64 → Bool
  | .finite s m _, .finite t n _ => signed s m == signed t n
  | .infinite s, .infinite t => s == t
  | _, _ => false

def lt : Binary64 → Binary64 → Bool
  | .nan, _ | _, .nan => false
  | .finite s m _, .finite t n _ => signed s m < signed t n
  | .infinite s, .infinite t => s && !t
  | .infinite s, .finite .. => s
  | .finite .., .infinite t => !t

instance : LT Binary64 := ⟨fun x y => lt x y = true⟩
instance : LE Binary64 := ⟨fun x y => (lt x y || numericallyEqual x y) = true⟩

instance (x y : Binary64) : Decidable (x < y) := inferInstanceAs (Decidable (lt x y = true))
instance (x y : Binary64) : Decidable (x ≤ y) :=
  inferInstanceAs (Decidable ((lt x y || numericallyEqual x y) = true))

/-- Within bounds, which are taken over where the number lies outside; a NaN stays. -/
def clamp (x low high : Binary64) : Binary64 :=
  if x < low then low else if high < x then high else x

/-! ## Roundings of the domain -/

/-- To two decimals.  Both zeros become the positive one. -/
def toHundredths (x : Binary64) : Binary64 :=
  let rounded := round (x * 100) / 100
  if rounded.numericallyEqual 0 then 0 else rounded

/-- To three decimals. -/
def toThousandths (x : Binary64) : Binary64 := round (x * 1000) / 1000

end Binary64

end DesignTokens
