import DesignTokens.Number.Binary64

/-!
# JSON values

A value as it is written, and as it is read when all of it is wanted.  An object is the list of its
members: their order is kept, and a name may occur twice.  Numbers come in two sorts, because some
places of a format admit natural numbers only and look at how a number is spelled: `2` is natural,
`2.0` is not.
-/

namespace DesignTokens

namespace Json

/-- A number: a natural number below `2 ^ 64` written without fraction or exponent, or any other. -/
inductive Number where
  | natural (n : Nat)
  | real (x : Binary64)
  deriving DecidableEq

/-- The value of a number, rounded if need be. -/
def Number.value : Number → Binary64
  | .natural n => .ofNat n
  | .real x => x

end Json

inductive Json where
  | null
  | bool (b : Bool)
  | number (n : Json.Number)
  | text (s : String)
  | array (items : List Json)
  | object (members : List (String × Json))

instance : Inhabited Json := ⟨.null⟩

namespace Json

def natural (n : Nat) : Json := .number (.natural n)

def real (x : Binary64) : Json := .number (.real x)

/-- The value of a member. -/
def member? (name : String) : Json → Option Json
  | .object members => (members.find? fun entry => entry.1 == name).map Prod.snd
  | _ => none

end Json

end DesignTokens
