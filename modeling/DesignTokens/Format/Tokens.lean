import DesignTokens.Format.Variable
import DesignTokens.TokenSet

/-!
# Written forms: tokens
-/

namespace DesignTokens

open Json (Names Codec RecordForm Field TaggedForm Content)

/-! ## Values -/

def Unresolved.names : Names Unresolved where
  values := [.missingVariable, .circularReference, .noValueForMode]
  name
    | .missingVariable => "missing_variable"
    | .circularReference => "circular_reference"
    | .noValueForMode => "no_value_for_mode"

/-- A value is tagged by its type. -/
def Value.form : TaggedForm Value where
  tag := "type"
  content := "value"
  variants := [
    ("color", .of Codec.text .color),
    ("float", .of Codec.float .float),
    ("string", .of Codec.text .text),
    ("bool", .of Codec.bool .bool),
    ("unresolved", .named Unresolved.names .unresolved)]
  write
    | .color s => ("color", some (.text s))
    | .float x => ("float", some (Codec.float.encode x))
    | .text s => ("string", some (.text s))
    | .bool b => ("bool", some (.bool b))
    | .unresolved reason => ("unresolved", some (Unresolved.names.codec.encode reason))

def Value.codec : Codec Value := Value.form.codec

/-! ## Endpoints and properties -/

def Endpoint.form : RecordForm Endpoint where
  blank := default
  fields := [
    .required "kind" CollectionKind.codec (·.kind) fun v r => { r with kind := v },
    .required "variable" VariableId.codec (·.id) fun v r => { r with id := v },
    .required "path" Codec.text (·.path) fun v r => { r with path := v },
    .required "leaf" Codec.text (·.leaf) fun v r => { r with leaf := v }]

def Endpoint.codec : Codec Endpoint := Endpoint.form.codec

def Binding.form : RecordForm Binding where
  blank := { id := default, path := "" }
  fields := [
    .required "variable" VariableId.codec (·.id) fun v r => { r with id := v },
    .required "path" Codec.text (·.path) fun v r => { r with path := v },
    .omitted "endpoint" Endpoint.codec (·.endpoint) fun v r => { r with endpoint := v }]

def Property.form {α : Type} (codec : Codec α) : RecordForm (Property α) where
  blank := {}
  fields := [
    .optional "value" codec (·.value) fun v r => { r with value := v },
    .omitted "binding" Binding.form.codec (·.binding) fun v r => { r with binding := v }]

def Property.textCodec : Codec (Property String) := (Property.form Codec.text).codec

def Property.numberCodec : Codec (Property Binary64) := (Property.form Codec.float).codec

/-! ## Composites -/

def Typography.form : RecordForm Typography where
  blank := {}
  fields := [
    .required "font_family" Property.textCodec (·.fontFamily) fun v r => { r with fontFamily := v },
    .required "font_weight" Property.numberCodec (·.fontWeight) fun v r =>
      { r with fontWeight := v },
    .required "font_size" Property.numberCodec (·.fontSize) fun v r => { r with fontSize := v },
    .required "line_height" Property.numberCodec (·.lineHeight) fun v r =>
      { r with lineHeight := v },
    .required "letter_spacing" Property.numberCodec (·.letterSpacing) fun v r =>
      { r with letterSpacing := v },
    .required "font_style" Property.textCodec (·.fontStyle) fun v r => { r with fontStyle := v },
    .required "text_case" Property.textCodec (·.textCase) fun v r => { r with textCase := v },
    .required "text_decoration" Property.textCodec (·.textDecoration) fun v r =>
      { r with textDecoration := v }]

def Typography.codec : Codec Typography := Typography.form.codec

def TypographyToken.form : RecordForm TypographyToken where
  blank := default
  fields := [
    .required "key" CellKey.codec (·.key) fun v r => { r with key := v },
    .required "style_id" Codec.text (·.styleId) fun v r => { r with styleId := v },
    .required "name" Codec.text (·.name) fun v r => { r with name := v },
    .required "typography" Typography.codec (·.typography) fun v r => { r with typography := v }]

def TypographyToken.codec : Codec TypographyToken := TypographyToken.form.codec

def ShadowKind.names : Names ShadowKind where
  values := [.drop, .inner]
  name
    | .drop => "drop"
    | .inner => "inner"

def ShadowLayer.form : RecordForm ShadowLayer where
  blank := { kind := default, blendMode := "" }
  fields := [
    .required "kind" ShadowKind.names.codec (·.kind) fun v r => { r with kind := v },
    .required "color" Property.textCodec (·.color) fun v r => { r with color := v },
    .required "offset_x" Property.numberCodec (·.offsetX) fun v r => { r with offsetX := v },
    .required "offset_y" Property.numberCodec (·.offsetY) fun v r => { r with offsetY := v },
    .required "radius" Property.numberCodec (·.radius) fun v r => { r with radius := v },
    .required "spread" Property.numberCodec (·.spread) fun v r => { r with spread := v },
    .required "blend_mode" Codec.text (·.blendMode) fun v r => { r with blendMode := v }]

def ShadowLayer.codec : Codec ShadowLayer := ShadowLayer.form.codec

def EffectToken.form : RecordForm EffectToken where
  blank := default
  fields := [
    .required "key" CellKey.codec (·.key) fun v r => { r with key := v },
    .required "style_id" Codec.text (·.styleId) fun v r => { r with styleId := v },
    .required "name" Codec.text (·.name) fun v r => { r with name := v },
    .required "layers" (Codec.list ShadowLayer.codec) (·.layers) fun v r => { r with layers := v }]

def EffectToken.codec : Codec EffectToken := EffectToken.form.codec

/-! ## Standalone tokens -/

def RatioSource.names : Names RatioSource where
  values := [.identity, .namePattern, .valuePattern]
  name
    | .identity => "identity"
    | .namePattern => "name_pattern"
    | .valuePattern => "value_pattern"

def LineHeightRatio.form : RecordForm LineHeightRatio where
  blank := default
  fields := [
    .required "ratio" Codec.float (·.ratio) fun v r => { r with ratio := v },
    .required "source" RatioSource.names.codec (·.source) fun v r => { r with source := v }]

def Token.form : RecordForm Token where
  blank := { path := "", id := default, type := default, value := default, chain := [] }
  fields := [
    .required "path" Codec.text (·.path) fun v r => { r with path := v },
    .required "variable" VariableId.codec (·.id) fun v r => { r with id := v },
    .required "var_type" VariableType.codec (·.type) fun v r => { r with type := v },
    .required "value" Value.codec (·.value) fun v r => { r with value := v },
    .required "chain" (Codec.list VariableId.codec) (·.chain) fun v r => { r with chain := v },
    .omitted "endpoint" Endpoint.codec (·.endpoint) fun v r => { r with endpoint := v },
    .omitted "line_height_ratio" LineHeightRatio.form.codec (·.lineHeightRatio) fun v r =>
      { r with lineHeightRatio := v }]

def Token.codec : Codec Token := Token.form.codec

def TokenFile.form : RecordForm TokenFile where
  blank := default
  fields := [
    .required "key" CellKey.codec (·.key) fun v r => { r with key := v },
    .required "scope" Codec.text (·.scope) fun v r => { r with scope := v },
    .required "tokens" (Codec.list Token.codec) (·.tokens) fun v r => { r with tokens := v }]

def TokenFile.codec : Codec TokenFile := TokenFile.form.codec

/-! ## The density matrix -/

def DensityCell.form : RecordForm DensityCell where
  blank := { key := {}, value := default }
  fields := [
    .required "key" CellKey.codec (·.key) fun v r => { r with key := v },
    .required "value" Value.codec (·.value) fun v r => { r with value := v },
    .omitted "endpoint" Endpoint.codec (·.endpoint) fun v r => { r with endpoint := v }]

def DensityCell.codec : Codec DensityCell := DensityCell.form.codec

def DensityToken.form : RecordForm DensityToken where
  blank := default
  fields := [
    .required "brand" Codec.text (·.brand) fun v r => { r with brand := v },
    .required "path" Codec.text (·.path) fun v r => { r with path := v },
    .required "variable" VariableId.codec (·.id) fun v r => { r with id := v },
    .required "cells" (Codec.list DensityCell.codec) (·.cells) fun v r => { r with cells := v }]

def DensityToken.codec : Codec DensityToken := DensityToken.form.codec

/-! ## The whole -/

def TokenSet.form : RecordForm TokenSet where
  blank := {}
  fields := [
    .required "files" (Codec.list TokenFile.codec) (·.files) fun v r => { r with files := v },
    .required "typography" (Codec.list TypographyToken.codec) (·.typography) fun v r =>
      { r with typography := v },
    .required "effects" (Codec.list EffectToken.codec) (·.effects) fun v r =>
      { r with effects := v },
    .required "density" (Codec.list DensityToken.codec) (·.density) fun v r =>
      { r with density := v },
    .required "palette_inheritance" (Codec.table id some Codec.text) (·.paletteInheritance)
      fun v r => { r with paletteInheritance := v }]

def TokenSet.codec : Codec TokenSet := TokenSet.form.codec

end DesignTokens
