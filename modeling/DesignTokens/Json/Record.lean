import DesignTokens.Json.Codec

/-!
# Records

A record is written as an object with one member for each field, in the order of the fields.  It is
read from such an object, whose members may come in any order and among others, or from an array of
the field values in order.

What happens to a field that is not there is its `Absence`.  A `RecordForm` has a blank record, from
which reading starts: its fields have the values that absent fields take, and a field whose absence
is an error may have any value there.
-/

namespace DesignTokens.Json

/-- Where a field may be absent. -/
inductive Absence where
  /-- Nowhere. -/
  | never
  /-- In an object. -/
  | inObject
  /-- In an object, and at the end of an array. -/
  | everywhere
  deriving DecidableEq

structure Field (ρ : Type) where
  name : String
  absence : Absence
  /-- The member of a record, unless it is left out. -/
  write : ρ → Option Json
  /-- The change that the member makes to a record. -/
  read : Decoder (ρ → ρ)

namespace Field

variable {ρ α : Type}

/-- The decoder of a field from that of its values. -/
def reading (codec : Codec α) (put : α → ρ → ρ) : Decoder (ρ → ρ) :=
  fun depth document => (codec.decode depth document).map put

/-- A field that has to be there. -/
def required (name : String) (codec : Codec α) (get : ρ → α) (put : α → ρ → ρ) : Field ρ where
  name
  absence := .never
  write record := some (codec.encode (get record))
  read := reading codec put

/-- A field that takes the value of the blank record where it is absent. -/
def defaulted (name : String) (codec : Codec α) (get : ρ → α) (put : α → ρ → ρ) : Field ρ :=
  { required name codec get put with absence := .everywhere }

/-- A field whose missing value is written as `null`. -/
def optional (name : String) (codec : Codec α) (get : ρ → Option α) (put : Option α → ρ → ρ) :
    Field ρ :=
  { required name codec.nullable get put with absence := .inObject }

/-- A field whose missing value is left out. -/
def omitted (name : String) (codec : Codec α) (get : ρ → Option α) (put : Option α → ρ → ρ) :
    Field ρ :=
  { optional name codec get put with write := fun record => (get record).map codec.encode }

end Field

structure RecordForm (ρ : Type) where
  blank : ρ
  fields : List (Field ρ)

namespace RecordForm

variable {ρ : Type}

/-- The record that the members of an object make of a record, and the names of the fields that are
seen.  No field may come twice; a member that is no field is passed over. -/
def readMembers (fields : List (Field ρ)) (depth : Nat) (seen : List String) (record : ρ) :
    List (Token String × Document) → Except Flaw (List String × ρ)
  | [] => .ok (seen, record)
  | (name, item) :: rest => do
    let name ← name.keep
    match fields.find? fun field => field.name == name with
    | none =>
      item.skip
      readMembers fields depth seen record rest
    | some field =>
      if seen.contains name then throw .mismatched
      let change ← field.read depth item
      readMembers fields depth (name :: seen) (change record) rest

/-- The record that the items of an array make of a record. -/
def readItems (depth : Nat) (record : ρ) :
    List (Field ρ) → List Document → Ending → Except Flaw ρ
  | [], [], ending => do
    ending.finishFixed
    return record
  | [], _ :: _, _ => .error .malformed
  | fields@(_ :: _), [], ending => do
    ending.finish
    if fields.all fun field => field.absence == .everywhere then return record
    else throw .mismatched
  | field :: fields, item :: items, ending => do
    let change ← field.read depth item
    readItems depth (change record) fields items ending

/-- A record as a JSON value. -/
def codec (form : RecordForm ρ) : Codec ρ where
  encode record := .object (form.fields.filterMap fun field =>
    (field.write record).map fun member => (field.name, member))
  decode
    | depth, .object members ending => do
      let inner ← deepen depth
      let (seen, record) ← readMembers form.fields inner [] form.blank members
      ending.finish
      if form.fields.all fun field => field.absence != .never || seen.contains field.name then
        return record
      else throw .mismatched
    | depth, .array items ending => do
      let inner ← deepen depth
      readItems inner form.blank form.fields items ending
    | _, document => .error document.mismatch

/-- A record as an array of its field values alone. -/
def rowCodec (form : RecordForm ρ) : Codec ρ where
  encode record := .array (form.fields.filterMap fun field => field.write record)
  decode
    | depth, .array items ending => do
      let inner ← deepen depth
      readItems inner form.blank form.fields items ending
    | _, document => .error document.mismatch

end RecordForm

end DesignTokens.Json
