import DesignTokens.Json.Codec

/-!
# Types with several variants

There are three ways to write which variant a value is:

* an `enumeration` writes the name of the variant, and reads also an object with that name and
  `null`;
* `wrapped` writes an object whose only member has the name of the variant and holds its content;
* a `TaggedForm` writes an object with a tag, which is the name of the variant, and its content.

A type may also be written without a trace of the variant; then the whole document is read, and the
first reading that fits it counts (`firstFitting`).
-/

namespace DesignTokens.Json

variable {α : Type}

/-- Reads the document of a variant: a bare name, or a name with content.  Anything else that begins
here is no JSON in this place. -/
def decodeVariant (bare : String → Except Flaw α) (content : String → Option (Decoder α)) :
    Decoder α
  | _, .text token => token.keep.bind bare
  | depth, .object members ending => do
    let inner ← deepen depth
    match members with
    | [] =>
      ending.finish
      throw .malformed
    | (name, item) :: others =>
      let some decode := content (← name.keep) | throw .mismatched
      let value ← decode inner item
      if others.isEmpty then ending.finishFixed else throw .malformed
      return value
  | _, .absent => .error .ended
  | _, _ => .error .malformed

/-! ## Names -/

/-- The names of finitely many values. -/
structure Names (α : Type) where
  values : List α
  name : α → String

namespace Names

/-- The value of a name. -/
def find? (names : Names α) (name : String) : Option α :=
  names.values.find? fun value => names.name value == name

/-- The value of a name, or else a mismatch. -/
def named (names : Names α) (name : String) : Except Flaw α :=
  match names.find? name with
  | some value => .ok value
  | none => .error .mismatched

/-- Reads a quoted name and nothing else. -/
def decodeQuoted (names : Names α) : Decoder α
  | _, .text token => token.keep.bind names.named
  | _, document => .error document.mismatch

/-- A value as its name. -/
def codec (names : Names α) : Codec α where
  encode value := .text (names.name value)
  decode := decodeVariant names.named
    (fun name => (names.find? name).map fun value depth document =>
      (expectNull depth document).map fun _ => value)

/-- The value of a name inside content that was read before it was known what it is.  There an empty
object is as good as `null`. -/
def ofKept? (names : Names α) : Json → Option α
  | .text name => names.find? name
  | .object [(name, .null)] | .object [(name, .object [])] => names.find? name
  | _ => none

end Names

/-! ## Wrapped content -/

/-- A value as an object with one member. -/
def wrapped (write : α → String × Json) (content : String → Option (Decoder α)) : Codec α where
  encode value := .object [write value]
  decode := decodeVariant (fun _ => .error .mismatched) content

/-! ## Content that says itself what it is -/

/-- The first of several readings that fits a document as a whole. -/
def firstFitting (readings : List (Json → Option α)) : Decoder α := fun depth document => do
  let value ← document.keep depth
  match readings.findSome? fun reading => reading value with
  | some result => return result
  | none => throw .mismatched

/-- The reading of a value that is known as a whole. -/
def Codec.ofKept? (codec : Codec α) (value : Json) : Option α :=
  (codec.decode 0 (.ofValue value)).toOption

/-! ## Tagged content -/

/-- What a variant of a tagged form holds. -/
inductive Content (α : Type) where
  /-- Nothing: the content is absent or `null`. -/
  | none (value : α)
  /-- Something, read in place or from content that was read before the tag. -/
  | some (decode : Decoder α) (ofKept? : Json → Option α)

namespace Content

/-- Content with the form of a codec. -/
def of {β : Type} (codec : Codec β) (wrap : β → α) : Content α :=
  .some (fun depth document => (codec.decode depth document).map wrap)
    (fun value => (codec.ofKept? value).map wrap)

/-- A name as content. -/
def named {β : Type} (names : Names β) (wrap : β → α) : Content α :=
  .some (fun depth document => (names.codec.decode depth document).map wrap)
    (fun value => (names.ofKept? value).map wrap)

def decode : Content α → Decoder α
  | .none value, depth, document => (expectNull depth document).map fun _ => value
  | .some decode _, depth, document => decode depth document

def fromKept : Content α → Json → Except Flaw α
  | .none value, .null => .ok value
  | .none _, _ => .error .mismatched
  | .some _ ofKept?, kept => match ofKept? kept with
    | Option.some value => .ok value
    | Option.none => .error .mismatched

def fromNothing : Content α → Except Flaw α
  | .none value => .ok value
  | .some .. => .error .mismatched

end Content

/-- A form with a tag.  `variants` names the variants, `write` is the tag and content of a value. -/
structure TaggedForm (α : Type) where
  tag : String
  content : String
  variants : List (String × Content α)
  write : α → String × Option Json

namespace TaggedForm

/-- What is known in the course of the members of an object. -/
inductive Progress (α : Type) where
  | nothing
  | tag (variant : Content α)
  | content (kept : Json)
  | complete (value : α)

/-- The variants by name. -/
def names (form : TaggedForm α) : Names (String × Content α) := ⟨form.variants, Prod.fst⟩

def decodeTag (form : TaggedForm α) : Decoder (Content α) := fun depth document =>
  (form.names.codec.decode depth document).map Prod.snd

/-- The members of an object in order.  Tag and content may come in either order, each once; other
members are passed over. -/
def readMembers (form : TaggedForm α) (depth : Nat) (progress : Progress α) :
    List (Token String × Document) → Except Flaw (Progress α)
  | [] => .ok progress
  | (name, item) :: rest => do
    let name ← name.keep
    if name = form.tag then
      match progress with
      | .nothing => form.readMembers depth (.tag (← form.decodeTag depth item)) rest
      | .content kept =>
        let variant ← form.decodeTag depth item
        form.readMembers depth (.complete (← variant.fromKept kept)) rest
      | .tag _ | .complete _ => throw .mismatched
    else if name = form.content then
      match progress with
      | .nothing => form.readMembers depth (.content (← item.keep depth)) rest
      | .tag variant => form.readMembers depth (.complete (← variant.decode depth item)) rest
      | .content _ | .complete _ => throw .mismatched
    else
      item.skip
      form.readMembers depth progress rest

/-- A value as an object with a tag.  An array of tag and content is read as well, in which the tag
is a quoted name. -/
def codec (form : TaggedForm α) : Codec α where
  encode value :=
    let (tag, content) := form.write value
    .object ((form.tag, .text tag) :: (content.map fun c => (form.content, c)).toList)
  decode
    | depth, .object members ending => do
      let inner ← deepen depth
      let progress ← form.readMembers inner .nothing members
      ending.finish
      match progress with
      | .complete value => return value
      | .tag variant => variant.fromNothing
      | .nothing | .content _ => throw .mismatched
    | depth, .array items ending => do
      let inner ← deepen depth
      match items with
      | [] =>
        ending.finish
        throw .mismatched
      | [tag] =>
        let _ ← form.names.decodeQuoted inner tag
        ending.finish
        throw .mismatched
      | tag :: content :: others =>
        let (_, variant) ← form.names.decodeQuoted inner tag
        let value ← variant.decode inner content
        if others.isEmpty then ending.finishFixed else throw .malformed
        return value
    | _, document => .error document.mismatch

end TaggedForm

end DesignTokens.Json
