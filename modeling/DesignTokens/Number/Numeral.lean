import DesignTokens.Number.Decimal

/-!
# Numerals

`numeral?` reads a number from a text that a person wrote: an optional sign; digits with an
optional point before, among or after them; an optional exponent.  The words `inf`, `infinity` and
`nan` stand for themselves in any case.  A text with anything else in it is no numeral.
-/

namespace DesignTokens

namespace Numeral

/-- The value of a run of digits. -/
def digitsValue (digits : List Char) : Nat :=
  digits.foldl (fun value c => value * 10 + (c.toNat - '0'.toNat)) 0

/-- A sign, if one is written, and what follows it. -/
def sign : List Char → Bool × List Char
  | '-' :: rest => (true, rest)
  | '+' :: rest => (false, rest)
  | text => (false, text)

/-- The exponent that ends a numeral. -/
def exponent? : List Char → Option Int
  | [] => some 0
  | c :: rest =>
    if c = 'e' ∨ c = 'E' then
      let (negative, digits) := sign rest
      if digits.isEmpty || !digits.all Char.isDigit then none
      else some (if negative then -(digitsValue digits : Int) else digitsValue digits)
    else none

/-- A numeral without its sign, as a decimal. -/
def decimal? (text : List Char) : Option Decimal :=
  let whole := text.takeWhile Char.isDigit
  let (fraction, rest) := match text.dropWhile Char.isDigit with
    | '.' :: tail => (tail.takeWhile Char.isDigit, tail.dropWhile Char.isDigit)
    | tail => ([], tail)
  if whole.isEmpty && fraction.isEmpty then none
  else (exponent? rest).map fun power =>
    ⟨digitsValue (whole ++ fraction), power - fraction.length⟩

end Numeral

/-- The number that a text stands for. -/
def numeral? (text : String) : Option Binary64 :=
  let (negative, body) := Numeral.sign text.toList
  let word := String.ofList (body.map Char.toLower)
  if word = "inf" ∨ word = "infinity" then some (.infinite negative)
  else if word = "nan" then some .nan
  else (Numeral.decimal? body).map (Binary64.ofDecimal negative)

end DesignTokens
