import DesignTokens.Table
import DesignTokens.Json.Document

/-!
# Written forms of types

A `Codec` ties a type to its JSON form: `encode` writes a value, `decode` reads a document that lies
inside a number of containers.  This module has the codecs of plain types and of lists, optional
values and tables; records and types with several variants have modules of their own.

A decoder walks the document in the order of the text.  Where another sort of document stands, the
result is `mismatch`: a number or a quoted text is read first, so its own flaw comes before the fact
that it is out of place.
-/

namespace DesignTokens.Json

/-- Reads a document inside a number of containers. -/
abbrev Decoder (α : Type) := Nat → Document → Except Flaw α

structure Codec (α : Type) where
  encode : α → Json
  decode : Decoder α

/-- What is wrong with a document that is not of the sort that is asked for. -/
def Document.mismatch : Document → Flaw
  | .number token => match token.keep with
    | .ok _ => .mismatched
    | .error flaw => flaw
  | .text token => match token.keep with
    | .ok _ => .mismatched
    | .error flaw => flaw
  | .absent => .ended
  | .unreadable flaw => flaw
  | .null | .bool _ | .array .. | .object .. => .mismatched

/-- Nothing but `null`. -/
def expectNull : Decoder Unit
  | _, .null => .ok ()
  | _, document => .error document.mismatch

/-- Each item of an array inside `depth` containers. -/
def decodeItems {α : Type} (decode : Decoder α) (depth : Nat) : List Document → Except Flaw (List α)
  | [] => .ok []
  | item :: rest => do
    let value ← decode depth item
    return value :: (← decodeItems decode depth rest)

namespace Codec

variable {α β κ ν : Type}

/-- The form of a type that another one represents. -/
def imap (codec : Codec α) (wrap : α → β) (unwrap : β → α) : Codec β where
  encode value := codec.encode (unwrap value)
  decode depth document := (codec.decode depth document).map wrap

def text : Codec String where
  encode := .text
  decode
    | _, .text token => token.keep
    | _, document => .error document.mismatch

def bool : Codec Bool where
  encode := .bool
  decode
    | _, .bool b => .ok b
    | _, document => .error document.mismatch

/-- A binary64 number, however it is spelled.  One that is not finite has no spelling, and `null` is
written in its place. -/
def float : Codec Binary64 where
  encode x := if x.isFinite then .real x else .null
  decode
    | _, .number token => token.keep.map Number.value
    | _, document => .error document.mismatch

/-- A natural number, spelled as one. -/
def count : Codec Nat where
  encode := .natural
  decode
    | _, .number token => token.keep.bind fun
      | .natural n => .ok n
      | .real _ => .error .mismatched
    | _, document => .error document.mismatch

/-- A value that may be missing; `null` stands for the missing one. -/
def nullable (codec : Codec α) : Codec (Option α) where
  encode
    | none => .null
    | some value => codec.encode value
  decode
    | _, .null => .ok none
    | depth, document => (codec.decode depth document).map some

def list (codec : Codec α) : Codec (List α) where
  encode values := .array (values.map codec.encode)
  decode
    | depth, .array items ending => do
      let inner ← deepen depth
      let values ← decodeItems codec.decode inner items
      ending.finish
      return values
    | _, document => .error document.mismatch

/-- The entries of a table from the members of an object; a later member replaces an earlier one of
the same key. -/
def decodeEntries [Ord κ] [Std.TransOrd κ] [Std.LawfulEqOrd κ] (key? : String → Option κ)
    (decode : Decoder ν) (depth : Nat) (t : Table κ ν) :
    List (Token String × Document) → Except Flaw (Table κ ν)
  | [] => .ok t
  | (name, item) :: rest => do
    let name ← name.keep
    let some key := key? name | throw .mismatched
    let value ← decode depth item
    decodeEntries key? decode depth (t.insert key value) rest

/-- A table as an object.  `key` names a key, `key?` finds the key of a name. -/
def table [Ord κ] [Std.TransOrd κ] [Std.LawfulEqOrd κ] (key : κ → String)
    (key? : String → Option κ) (codec : Codec ν) : Codec (Table κ ν) where
  encode t := .object (t.entries.map fun entry => (key entry.1, codec.encode entry.2))
  decode
    | depth, .object members ending => do
      let inner ← deepen depth
      let t ← decodeEntries key? codec.decode inner .empty members
      ending.finish
      return t
    | _, document => .error document.mismatch

end Codec

/-! ## Whole texts -/

/-- A value from a whole text. -/
def Text.decode {α : Type} (codec : Codec α) (whole : Text) : Except Flaw α := do
  let value ← codec.decode 0 whole.document
  if whole.followed then throw .malformed
  return value

end DesignTokens.Json
