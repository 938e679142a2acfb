import DesignTokens.Number.Decimal

/-!
# Written numbers

The digits of a number are `Binary64.shortest`; a `NumberStyle` says how they are laid out.  The
library writes numbers in two styles:

* `NumberStyle.plain`, in running text: always positional, a whole number without a fraction, and of
  two equally near decimals the greater one;
* `NumberStyle.json`, in documents: positional where the first digit has a weight from `10 ^ -5` to
  `10 ^ 15`, scientific elsewhere, a positional whole number with the fraction `.0`, and of two
  equally near decimals the one that ends in an even digit.
-/

namespace DesignTokens

/-- The decisions about the text of a number. -/
structure NumberStyle where
  /-- Whether a number is positional, given the weight of its first digit as a power of ten. -/
  positional : Int → Bool
  /-- The fraction of a positional whole number. -/
  wholeFraction : String
  /-- Which of two equally near decimals is written. -/
  tie : Binary64.Tie

namespace NumberStyle

def plain : NumberStyle where
  positional _ := true
  wholeFraction := ""
  tie := .up

def json : NumberStyle where
  positional weight := -5 ≤ weight && weight < 16
  wholeFraction := ".0"
  tie := .toEven

/-- The digits of a natural number. -/
def digitsOf (n : Nat) : List Char := Nat.toDigits 10 n

/-- Digits with `point` of them before the decimal point. -/
def layPositional (style : NumberStyle) (digits : List Char) (point : Int) : List Char :=
  match point with
  | .ofNat whole =>
    if digits.length ≤ whole then
      digits ++ List.replicate (whole - digits.length) '0' ++ style.wholeFraction.toList
    else if whole = 0 then '0' :: '.' :: digits
    else digits.take whole ++ '.' :: digits.drop whole
  | .negSucc zeros => '0' :: '.' :: (List.replicate (zeros + 1) '0' ++ digits)

/-- One digit, the others as a fraction, and the weight of the first with its sign. -/
def layScientific (digits : List Char) (weight : Int) : List Char :=
  let fraction := match digits.drop 1 with
    | [] => []
    | rest => '.' :: rest
  let exponent := match weight with
    | .ofNat n => '+' :: digitsOf n
    | .negSucc n => '-' :: digitsOf (n + 1)
  digits.take 1 ++ fraction ++ 'e' :: exponent

/-- The text of a magnitude. -/
def magnitudeText (style : NumberStyle) (magnitude : Nat) : List Char :=
  if magnitude = 0 then '0' :: style.wholeFraction.toList
  else
    let shortest := Binary64.shortest style.tie magnitude
    let digits := digitsOf shortest.digits
    let point := digits.length + shortest.exponent
    if style.positional (point - 1) then style.layPositional digits point
    else layScientific digits (point - 1)

/-- The text of a number. -/
def text (style : NumberStyle) : Binary64 → String
  | .nan => "NaN"
  | .infinite negative => if negative then "-inf" else "inf"
  | .finite negative magnitude _ =>
    String.ofList (if negative then '-' :: style.magnitudeText magnitude
      else style.magnitudeText magnitude)

end NumberStyle

/-- The text of a number inside a sentence or a value. -/
def Binary64.plainText (x : Binary64) : String := NumberStyle.plain.text x

end DesignTokens
