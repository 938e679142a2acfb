import DesignTokens.Json.Value

/-!
# JSON documents

A document is what a text holds, flaws included.  Reading a typed record from a text walks the
document in the order of the text and stops at the first flaw, so a flaw counts only if the walk
gets there: a wrong member that stands earlier is reported in its place, and inside a member that
nobody asked for some flaws do not matter.

* A `Token` is a number or a quoted text.  It may be `spoiled`, which is a flaw only where the token
  is wanted, or `broken`, which always is one but of a category that depends on the reading.
* An `Ending` says how the list of items or members ends.

`keep` turns a document into a value, `skip` passes over one; `ofValue` is the document without
flaws of a value.
-/

namespace DesignTokens.Json

/-- The categories of what can be wrong with a text. -/
inductive Flaw where
  /-- The text ends too early. -/
  | ended
  /-- The text is not JSON. -/
  | malformed
  /-- The text is JSON but not of the shape that is asked for. -/
  | mismatched
  deriving DecidableEq, Repr

/-- A number or a quoted text inside a document. -/
inductive Token (α : Type) where
  | sound (value : α)
  | spoiled
  | broken (kept skipped : Flaw)
  deriving DecidableEq

namespace Token

variable {α : Type}

/-- The token where it is wanted. -/
def keep : Token α → Except Flaw α
  | .sound value => .ok value
  | .spoiled => .error .malformed
  | .broken kept _ => .error kept

/-- The token where it is passed over. -/
def skip : Token α → Except Flaw Unit
  | .sound _ | .spoiled => .ok ()
  | .broken _ skipped => .error skipped

end Token

/-- How the items of an array or the members of an object end. -/
inductive Ending where
  | closed
  | flawed (flaw : Flaw)
  /-- Something is wrong behind a comma. -/
  | afterComma (flaw : Flaw)
  deriving DecidableEq

/-- The end for a reading that takes all there is. -/
def Ending.finish : Ending → Except Flaw Unit
  | .closed => .ok ()
  | .flawed flaw | .afterComma flaw => .error flaw

/-- The end for a reading that knows how many items there are, so that a comma is out of place. -/
def Ending.finishFixed : Ending → Except Flaw Unit
  | .closed => .ok ()
  | .flawed flaw => .error flaw
  | .afterComma _ => .error .malformed

inductive Document where
  | null
  | bool (b : Bool)
  | number (token : Token Number)
  | text (token : Token String)
  | array (items : List Document) (ending : Ending)
  | object (members : List (Token String × Document)) (ending : Ending)
  /-- The text ends where the document should begin. -/
  | absent
  /-- Something else stands where the document should begin, or an unknown word. -/
  | unreadable (flaw : Flaw)

instance : Inhabited Document := ⟨.null⟩

/-- How many containers may lie inside each other where their content is wanted. -/
def depthLimit : Nat := 127

/-- Enter one more container. -/
def deepen (depth : Nat) : Except Flaw Nat :=
  if depth < depthLimit then .ok (depth + 1) else .error .malformed

namespace Document

/-! ## From a document to a value and back -/

mutual

/-- The value of a document that lies inside `depth` containers. -/
def keep (depth : Nat) : Document → Except Flaw Json
  | .null => .ok .null
  | .bool b => .ok (.bool b)
  | .number token => token.keep.map .number
  | .text token => token.keep.map .text
  | .array items ending => do
    let inner ← deepen depth
    let values ← keepItems inner items
    ending.finish
    return .array values
  | .object members ending => do
    let inner ← deepen depth
    let values ← keepMembers inner members
    ending.finish
    return .object values
  | .absent => .error .ended
  | .unreadable flaw => .error flaw

def keepItems (depth : Nat) : List Document → Except Flaw (List Json)
  | [] => .ok []
  | item :: rest => do
    let value ← keep depth item
    return value :: (← keepItems depth rest)

def keepMembers (depth : Nat) : List (Token String × Document) → Except Flaw (List (String × Json))
  | [] => .ok []
  | (name, item) :: rest => do
    let name ← name.keep
    let value ← keep depth item
    return (name, value) :: (← keepMembers depth rest)

end

mutual

/-- Whether a document can be passed over.  How deep it is does not matter. -/
def skip : Document → Except Flaw Unit
  | .null | .bool _ => .ok ()
  | .number token => token.skip
  | .text token => token.skip
  | .array items ending => do
    skipItems items
    ending.finish
  | .object members ending => do
    skipMembers members
    ending.finish
  | .absent => .error .ended
  | .unreadable flaw => .error flaw

def skipItems : List Document → Except Flaw Unit
  | [] => .ok ()
  | item :: rest => do
    skip item
    skipItems rest

def skipMembers : List (Token String × Document) → Except Flaw Unit
  | [] => .ok ()
  | (name, item) :: rest => do
    name.skip
    skip item
    skipMembers rest

end

mutual

/-- The document of a value. -/
def ofValue : Json → Document
  | .null => .null
  | .bool b => .bool b
  | .number n => .number (.sound n)
  | .text s => .text (.sound s)
  | .array items => .array (ofItems items) .closed
  | .object members => .object (ofMembers members) .closed

def ofItems : List Json → List Document
  | [] => []
  | item :: rest => ofValue item :: ofItems rest

def ofMembers : List (String × Json) → List (Token String × Document)
  | [] => []
  | (name, item) :: rest => (.sound name, ofValue item) :: ofMembers rest

end

end Document

/-- What a whole text holds: one document, and whether more than blanks follow it. -/
structure Text where
  document : Document
  followed : Bool

end DesignTokens.Json
