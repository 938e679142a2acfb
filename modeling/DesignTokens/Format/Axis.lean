import DesignTokens.Collection
import DesignTokens.Json.Record
import DesignTokens.Json.Variant

/-!
# Written forms: axes and collections
-/

namespace DesignTokens

open Json (Names Codec RecordForm Field TaggedForm Content)

def ModeId.codec : Codec ModeId := Codec.text.imap ModeId.mk ModeId.text

def CollectionId.codec : Codec CollectionId := Codec.text.imap CollectionId.mk CollectionId.text

def Axis.names : Names Axis := ⟨[.brand, .breakpoint, .colorMode, .density], Axis.name⟩

def Axis.codec : Codec Axis := Axis.names.codec

/-- A kind is tagged by `kind`; its axis, if it has one, is the content. -/
def CollectionKind.form : TaggedForm CollectionKind where
  tag := "kind"
  content := "axis"
  variants := [
    ("primitive", .none .primitive),
    ("semantic", .named Axis.names .semantic),
    ("density", .none .density),
    ("brand_mapping", .named Axis.names .brandMapping),
    ("component", .none .component)]
  write
    | .primitive => ("primitive", none)
    | .semantic axis => ("semantic", some (Axis.codec.encode axis))
    | .density => ("density", none)
    | .brandMapping axis => ("brand_mapping", some (Axis.codec.encode axis))
    | .component => ("component", none)

def CollectionKind.codec : Codec CollectionKind := CollectionKind.form.codec

/-! ## Contexts and cells -/

def Context.form : RecordForm Context where
  blank := {}
  fields := [
    .optional "brand_name" Codec.text (·.brandName) fun v r => { r with brandName := v },
    .optional "breakpoint" ModeId.codec (·.breakpoint) fun v r => { r with breakpoint := v },
    .optional "color_mode" ModeId.codec (·.colorMode) fun v r => { r with colorMode := v },
    .optional "density" ModeId.codec (·.density) fun v r => { r with density := v }]

def Context.codec : Codec Context := Context.form.codec

def CellKey.form : RecordForm CellKey where
  blank := {}
  fields := [
    .omitted "brand" Codec.text (·.brand) fun v r => { r with brand := v },
    .omitted "breakpoint" Codec.text (·.breakpoint) fun v r => { r with breakpoint := v },
    .omitted "color_mode" Codec.text (·.colorMode) fun v r => { r with colorMode := v },
    .omitted "density" Codec.text (·.density) fun v r => { r with density := v }]

def CellKey.codec : Codec CellKey := CellKey.form.codec

/-! ## Collections of a graph -/

def Mode.form : RecordForm Mode where
  blank := default
  fields := [
    .required "id" ModeId.codec (·.id) fun v r => { r with id := v },
    .required "name" Codec.text (·.name) fun v r => { r with name := v }]

def Collection.form : RecordForm Collection where
  blank := default
  fields := [
    .required "id" CollectionId.codec (·.id) fun v r => { r with id := v },
    .required "name" Codec.text (·.name) fun v r => { r with name := v },
    .required "kind" CollectionKind.codec (·.kind) fun v r => { r with kind := v },
    .required "modes" (Codec.list Mode.form.codec) (·.modes) fun v r => { r with modes := v }]

def Collection.codec : Codec Collection := Collection.form.codec

end DesignTokens
