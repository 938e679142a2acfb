import DesignTokens.Number.Notation
import DesignTokens.Number.Numeral
import DesignTokens.Text.Blank
import DesignTokens.Variable

/-!
# Values

What a variable comes to in a context: a color, number, text or truth value, or the reason why there
is none.  A literal becomes a value by `Literal.value`: numbers are rounded to two decimals, colors
become text.
-/

namespace DesignTokens

/-- Why a variable comes to no value. -/
inductive Unresolved where
  | missingVariable
  | circularReference
  | noValueForMode
  deriving DecidableEq, Inhabited

/-- A reason as one word. -/
def Unresolved.label : Unresolved → String
  | .missingVariable => "missing-variable"
  | .circularReference => "circular-reference"
  | .noValueForMode => "no-value-for-mode"

inductive Value where
  | color (s : String)
  | float (x : Binary64)
  | text (s : String)
  | bool (b : Bool)
  | unresolved (reason : Unresolved)
  deriving DecidableEq, Inhabited

namespace Value

def typeName : Value → String
  | .color _ => "COLOR"
  | .float _ => "FLOAT"
  | .text _ => "STRING"
  | .bool _ => "BOOLEAN"
  | .unresolved _ => "UNRESOLVED"

def isResolved : Value → Bool
  | .unresolved _ => false
  | _ => true

/-- The value as a number.  A text counts if it is a numeral, blanks around it aside. -/
def float? : Value → Option Binary64
  | .float x => some x
  | .text s => numeral? (Text.trim s)
  | _ => none

def text? : Value → Option String
  | .text s | .color s => some s
  | _ => none

def reason? : Value → Option Unresolved
  | .unresolved reason => some reason
  | _ => none

/-- The value as a property of text has it. -/
def plainText? : Value → Option String
  | .color s | .text s => some s
  | .float x => some x.plainText
  | .bool b => some (if b then "true" else "false")
  | .unresolved _ => none

/-- The value for display: a text in quotes, a reason in angle brackets. -/
def display : Value → String
  | .color s => s
  | .float x => x.plainText
  | .text s =>
    "\"" ++ String.ofList (s.toList.flatMap fun c => if c = '"' then ['\\', '"'] else [c]) ++ "\""
  | .bool b => if b then "true" else "false"
  | .unresolved reason => "<" ++ reason.label ++ ">"

end Value

/-! ## Literals as values -/

namespace Rgba

/-- A channel as a whole number from 0 to 255. -/
def channel (x : Binary64) : Nat :=
  ((x.clamp 0 1 * 255).round.toIntClamped 0 255).toNat

/-- Two hexadecimal digits. -/
def hexPair (n : Nat) : List Char := [Nat.digitChar (n / 16), Nat.digitChar (n % 16)]

/-- `#rrggbb` for a color that is opaque after rounding, `rgba(r, g, b, a)` for any other. -/
def text (c : Rgba) : String :=
  let r := channel c.r
  let g := channel c.g
  let b := channel c.b
  let alpha := (c.a.clamp 0 1).toHundredths
  if 1 ≤ alpha then String.ofList ('#' :: (hexPair r ++ hexPair g ++ hexPair b))
  else
    let channels := [r, g, b].map fun n => String.ofList (NumberStyle.digitsOf n)
    "rgba(" ++ String.intercalate ", " (channels ++ [alpha.plainText]) ++ ")"

end Rgba

/-- The value of a literal in a variable of the declared type.  Only a text is read differently for
a type: as a color it is trimmed and lowered. -/
def Literal.value (declared : VariableType) : Literal → Value
  | .color c => .color c.text
  | .number x => .float x.toHundredths
  | .bool b => .bool b
  | .text s => match declared with
    | .color => .color (Text.lower (Text.trim s))
    | .float | .string | .boolean => .text s

@[simp] theorem Literal.reason?_value (declared : VariableType) (literal : Literal) :
    (literal.value declared).reason? = none := by
  cases literal with
  | color c => rfl
  | number x => rfl
  | bool b => rfl
  | text s => cases declared <;> rfl

end DesignTokens
