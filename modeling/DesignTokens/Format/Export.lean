import DesignTokens.Error
import DesignTokens.Export
import DesignTokens.Format.Variable

/-!
# Written forms: exports
-/

namespace DesignTokens

open Json (Names Codec RecordForm Field)

/-! ## Collections and variables -/

def Mode.declaredForm : RecordForm Mode where
  blank := default
  fields := [
    .required "modeId" ModeId.codec (·.id) fun v r => { r with id := v },
    .required "name" Codec.text (·.name) fun v r => { r with name := v }]

def CollectionDeclaration.form : RecordForm CollectionDeclaration where
  blank := default
  fields := [
    .required "id" CollectionId.codec (·.id) fun v r => { r with id := v },
    .required "name" Codec.text (·.name) fun v r => { r with name := v },
    .required "modes" (Codec.list Mode.declaredForm.codec) (·.modes) fun v r =>
      { r with modes := v }]

def CollectionDeclaration.codec : Codec CollectionDeclaration := CollectionDeclaration.form.codec

/-- A variable in an export. -/
def Variable.declaredForm : RecordForm Variable where
  blank := default
  fields := [
    .required "id" VariableId.codec (·.id) fun v r => { r with id := v },
    .required "name" Codec.text (·.path) fun v r => { r with path := v },
    .required "variableCollectionId" CollectionId.codec (·.collection) fun v r =>
      { r with collection := v },
    .required "resolvedType" VariableType.codec (·.type) fun v r => { r with type := v },
    .defaulted "valuesByMode" (Entry.tableCodec Entry.bareCodec) (·.entries) fun v r =>
      { r with entries := v }]

def Variable.declaredCodec : Codec Variable := Variable.declaredForm.codec

/-! ## Text styles -/

def FontName.form : RecordForm FontName where
  blank := default
  fields := [
    .required "family" Codec.text (·.family) fun v r => { r with family := v },
    .required "style" Codec.text (·.style) fun v r => { r with style := v }]

def LengthUnit.names : Names LengthUnit where
  values := [.pixels, .percent, .auto]
  name
    | .pixels => "PIXELS"
    | .percent => "PERCENT"
    | .auto => "AUTO"

def Length.form : RecordForm Length where
  blank := { unit := default }
  fields := [
    .required "unit" LengthUnit.names.codec (·.unit) fun v r => { r with unit := v },
    .defaulted "value" Codec.float.nullable (·.value) fun v r => { r with value := v }]

def Length.codec : Codec Length := Length.form.codec

def TextBindings.form : RecordForm TextBindings where
  blank := {}
  fields := [
    .optional "fontFamily" VariableId.reference (·.fontFamily) fun v r =>
      { r with fontFamily := v },
    .optional "fontWeight" VariableId.reference (·.fontWeight) fun v r =>
      { r with fontWeight := v },
    .optional "fontStyle" VariableId.reference (·.fontStyle) fun v r => { r with fontStyle := v },
    .optional "fontSize" VariableId.reference (·.fontSize) fun v r => { r with fontSize := v },
    .optional "lineHeight" VariableId.reference (·.lineHeight) fun v r =>
      { r with lineHeight := v },
    .optional "letterSpacing" VariableId.reference (·.letterSpacing) fun v r =>
      { r with letterSpacing := v }]

def TextStyle.form : RecordForm TextStyle where
  blank := { id := "", name := "" }
  fields := [
    .required "id" Codec.text (·.id) fun v r => { r with id := v },
    .required "name" Codec.text (·.name) fun v r => { r with name := v },
    .defaulted "fontName" FontName.form.codec.nullable (·.fontName) fun v r =>
      { r with fontName := v },
    .defaulted "fontSize" Codec.float.nullable (·.fontSize) fun v r => { r with fontSize := v },
    .defaulted "lineHeight" Length.codec.nullable (·.lineHeight) fun v r =>
      { r with lineHeight := v },
    .defaulted "letterSpacing" Length.codec.nullable (·.letterSpacing) fun v r =>
      { r with letterSpacing := v },
    .defaulted "textCase" Codec.text.nullable (·.textCase) fun v r => { r with textCase := v },
    .defaulted "textDecoration" Codec.text.nullable (·.textDecoration) fun v r =>
      { r with textDecoration := v },
    .defaulted "boundVariables" TextBindings.form.codec (·.bindings) fun v r =>
      { r with bindings := v }]

def TextStyle.codec : Codec TextStyle := TextStyle.form.codec

/-! ## Effect styles -/

def EffectType.names : Names EffectType where
  values := [.dropShadow, .innerShadow, .layerBlur, .backgroundBlur]
  name
    | .dropShadow => "DROP_SHADOW"
    | .innerShadow => "INNER_SHADOW"
    | .layerBlur => "LAYER_BLUR"
    | .backgroundBlur => "BACKGROUND_BLUR"

def Offset.form : RecordForm Offset where
  blank := ⟨0, 0⟩
  fields := [
    .required "x" Codec.float (·.x) fun v r => { r with x := v },
    .required "y" Codec.float (·.y) fun v r => { r with y := v }]

def EffectBindings.form : RecordForm EffectBindings where
  blank := {}
  fields := [
    .optional "color" VariableId.reference (·.color) fun v r => { r with color := v },
    .optional "offsetX" VariableId.reference (·.offsetX) fun v r => { r with offsetX := v },
    .optional "offsetY" VariableId.reference (·.offsetY) fun v r => { r with offsetY := v },
    .optional "radius" VariableId.reference (·.radius) fun v r => { r with radius := v },
    .optional "spread" VariableId.reference (·.spread) fun v r => { r with spread := v }]

def Effect.form : RecordForm Effect where
  blank := { type := default }
  fields := [
    .required "type" EffectType.names.codec (·.type) fun v r => { r with type := v },
    .defaulted "visible" Codec.bool (·.visible) fun v r => { r with visible := v },
    .defaulted "color" Rgba.codec.nullable (·.color) fun v r => { r with color := v },
    .defaulted "offset" Offset.form.codec (·.offset) fun v r => { r with offset := v },
    .defaulted "radius" Codec.float (·.radius) fun v r => { r with radius := v },
    .defaulted "spread" Codec.float (·.spread) fun v r => { r with spread := v },
    .defaulted "blendMode" Codec.text.nullable (·.blendMode) fun v r => { r with blendMode := v },
    .defaulted "boundVariables" EffectBindings.form.codec (·.bindings) fun v r =>
      { r with bindings := v }]

def EffectStyle.form : RecordForm EffectStyle where
  blank := { id := "", name := "" }
  fields := [
    .required "id" Codec.text (·.id) fun v r => { r with id := v },
    .required "name" Codec.text (·.name) fun v r => { r with name := v },
    .defaulted "effects" (Codec.list Effect.form.codec) (·.effects) fun v r =>
      { r with effects := v }]

def EffectStyle.codec : Codec EffectStyle := EffectStyle.form.codec

/-! ## The whole -/

def Export.form : RecordForm Export where
  blank := {}
  fields := [
    .defaulted "collections" (Codec.list CollectionDeclaration.codec) (·.collections) fun v r =>
      { r with collections := v },
    .defaulted "variables" (Codec.list Variable.declaredCodec) (·.nodes) fun v r =>
      { r with nodes := v },
    .defaulted "textStyles" (Codec.list TextStyle.codec) (·.textStyles) fun v r =>
      { r with textStyles := v },
    .defaulted "effectStyles" (Codec.list EffectStyle.codec) (·.effectStyles) fun v r =>
      { r with effectStyles := v }]

def Export.codec : Codec Export := Export.form.codec

/-- The export that a text holds. -/
def Export.ofText (text : Json.Text) : Except Error Export :=
  (text.decode Export.codec).mapError .badJson

end DesignTokens
