import DesignTokens.Error
import DesignTokens.Format.Axis
import DesignTokens.Options

/-!
# Written forms: configurations and options
-/

namespace DesignTokens

open Json (Names Codec RecordForm Field)

/-! ## Configurations -/

def Brand.form : RecordForm Brand where
  blank := { name := "" }
  fields := [
    .required "name" Codec.text (·.name) fun v r => { r with name := v },
    .defaulted "colorsFrom" Codec.text.nullable (·.colorsFrom) fun v r =>
      { r with colorsFrom := v }]

def Brand.codec : Codec Brand := Brand.form.codec

def AxisMode.form : RecordForm AxisMode where
  blank := default
  fields := [
    .required "key" Codec.text (·.key) fun v r => { r with key := v },
    .required "modeId" ModeId.codec (·.mode) fun v r => { r with mode := v }]

def KindOverride.form : RecordForm KindOverride where
  blank := default
  fields := [
    .required "name" Codec.text (·.name) fun v r => { r with name := v },
    .required "kind" CollectionKind.codec (·.kind) fun v r => { r with kind := v }]

def Configuration.form : RecordForm Configuration where
  blank := { brands := [] }
  fields := [
    .required "brands" (Codec.list Brand.codec) (·.brands) fun v r => { r with brands := v },
    .defaulted "breakpoints" (Codec.list AxisMode.form.codec) (·.breakpoints) fun v r =>
      { r with breakpoints := v },
    .defaulted "colorModes" (Codec.list AxisMode.form.codec) (·.colorModes) fun v r =>
      { r with colorModes := v },
    .defaulted "densities" (Codec.list AxisMode.form.codec) (·.densities) fun v r =>
      { r with densities := v },
    .defaulted "collections" (Codec.list KindOverride.form.codec) (·.collections) fun v r =>
      { r with collections := v }]

def Configuration.codec : Codec Configuration := Configuration.form.codec

/-- The valid configuration that a text holds. -/
def Configuration.ofText (text : Json.Text) : Except Error Configuration := do
  let config ← (text.decode Configuration.codec).mapError .badJson
  config.validate.mapError .config
  return config

/-! ## Options -/

def FindingKind.names : Names FindingKind where
  values := FindingKind.all
  name
    | .missingVariable => "missing_variable"
    | .circularReference => "circular_reference"
    | .noValueForMode => "no_value_for_mode"
    | .ratioConflict => "ratio_conflict"
    | .missingRatio => "unresolved_enrichment"

def FindingKind.codec : Codec FindingKind := FindingKind.names.codec

def Acceptance.form : RecordForm Acceptance where
  blank := {}
  fields := [
    .defaulted "semantic" Codec.bool (·.semantic) fun v r => { r with semantic := v },
    .defaulted "density" Codec.bool (·.density) fun v r => { r with density := v },
    .defaulted "componentBreakpoint" Codec.bool (·.componentBreakpoint) fun v r =>
      { r with componentBreakpoint := v }]

def Acceptance.codec : Codec Acceptance := Acceptance.form.codec

def RatioOptions.form : RecordForm RatioOptions where
  blank := {}
  fields := [
    .defaulted "valuePattern" Codec.bool (·.valuePattern) fun v r => { r with valuePattern := v }]

def RatioOptions.codec : Codec RatioOptions := RatioOptions.form.codec

def Policy.form : RecordForm Policy where
  blank := {}
  fields := [
    .defaulted "fatal" (Codec.list FindingKind.codec) (·.fatal) fun v r => { r with fatal := v }]

def Policy.codec : Codec Policy := Policy.form.codec

def Options.form : RecordForm Options where
  blank := {}
  fields := [
    .defaulted "componentPrefix" Codec.text (·.componentPrefix) fun v r =>
      { r with componentPrefix := v },
    .defaulted "typography" Acceptance.codec (·.typography) fun v r => { r with typography := v },
    .defaulted "effects" Acceptance.codec (·.effects) fun v r => { r with effects := v },
    .defaulted "tokens" Acceptance.codec (·.tokens) fun v r => { r with tokens := v },
    .defaulted "enrich" RatioOptions.codec (·.ratios) fun v r =>
      { r with ratios := v },
    .defaulted "policy" Policy.codec (·.policy) fun v r => { r with policy := v }]

def Options.codec : Codec Options := Options.form.codec

/-- The options that a text holds. -/
def Options.ofText (text : Json.Text) : Except Error Options :=
  (text.decode Options.codec).mapError .badJson

end DesignTokens
