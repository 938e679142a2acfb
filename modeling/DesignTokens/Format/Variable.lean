import DesignTokens.Format.Axis
import DesignTokens.Variable

/-!
# Written forms: variables

An entry has two forms.  In an export it is the bare literal or a reference; there the sort of the
document tells which, and a reference is tried before a color.  In a graph it is wrapped in the name
of its variant.
-/

namespace DesignTokens

open Json (Names Codec RecordForm Field)

def VariableId.codec : Codec VariableId := Codec.text.imap VariableId.mk VariableId.text

def VariableType.names : Names VariableType where
  values := [.color, .float, .string, .boolean]
  name
    | .color => "COLOR"
    | .float => "FLOAT"
    | .string => "STRING"
    | .boolean => "BOOLEAN"

def VariableType.codec : Codec VariableType := VariableType.names.codec

/-! ## References -/

/-- The tag of a reference, which says nothing more. -/
def VariableId.referenceTag : Names Unit := ⟨[()], fun _ => "VARIABLE_ALIAS"⟩

/-- A reference to a variable: a tag and the id. -/
def VariableId.referenceForm : RecordForm VariableId where
  blank := default
  fields := [
    .required "type" VariableId.referenceTag.codec (fun _ => ()) fun _ r => r,
    .required "id" VariableId.codec id fun v _ => v]

def VariableId.reference : Codec VariableId := VariableId.referenceForm.codec

/-! ## Literals -/

def Rgba.form : RecordForm Rgba where
  blank := ⟨0, 0, 0, 1⟩
  fields := [
    .required "r" Codec.float (·.r) fun v c => { c with r := v },
    .required "g" Codec.float (·.g) fun v c => { c with g := v },
    .required "b" Codec.float (·.b) fun v c => { c with b := v },
    .defaulted "a" Codec.float (·.a) fun v c => { c with a := v }]

def Rgba.codec : Codec Rgba := Rgba.form.codec

namespace Literal

def encode : Literal → Json
  | .color c => Rgba.codec.encode c
  | .bool b => .bool b
  | .number x => Codec.float.encode x
  | .text s => .text s

/-- The readings of a literal, in the order in which they are tried. -/
def readings : List (Json → Option Literal) := [
  fun json => (Rgba.codec.ofKept? json).map .color,
  fun json => (Codec.bool.ofKept? json).map .bool,
  fun json => (Codec.float.ofKept? json).map .number,
  fun json => (Codec.text.ofKept? json).map .text]

def codec : Codec Literal := ⟨encode, Json.firstFitting readings⟩

end Literal

/-! ## Entries -/

namespace Entry

def encodeBare : Entry → Json
  | .literal value => value.encode
  | .alias target => VariableId.reference.encode target

/-- An entry in an export. -/
def bareCodec : Codec Entry where
  encode := encodeBare
  decode := Json.firstFitting <|
    (fun json => (VariableId.reference.ofKept? json).map .alias)
      :: Literal.readings.map fun reading json => (reading json).map .literal

/-- An entry in a graph. -/
def codec : Codec Entry :=
  Json.wrapped
    (fun
      | .literal value => ("Literal", value.encode)
      | .alias target => ("Alias", VariableId.codec.encode target))
    fun
      | "Literal" => some fun depth document => (Literal.codec.decode depth document).map .literal
      | "Alias" => some fun depth document => (VariableId.codec.decode depth document).map .alias
      | _ => none

end Entry

/-! ## Variables of a graph -/

/-- The entries of a variable by mode. -/
def Entry.tableCodec (entry : Codec Entry) : Codec (Table ModeId Entry) :=
  Codec.table ModeId.text (fun name => some ⟨name⟩) entry

def Variable.form : RecordForm Variable where
  blank := default
  fields := [
    .required "id" VariableId.codec (·.id) fun v r => { r with id := v },
    .required "path" Codec.text (·.path) fun v r => { r with path := v },
    .required "collection" CollectionId.codec (·.collection) fun v r => { r with collection := v },
    .required "var_type" VariableType.codec (·.type) fun v r => { r with type := v },
    .required "values" (Entry.tableCodec Entry.codec) (·.entries) fun v r =>
      { r with entries := v }]

def Variable.codec : Codec Variable := Variable.form.codec

end DesignTokens
