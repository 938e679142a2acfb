import DesignTokens.Format.Configuration
import DesignTokens.Format.Tokens
import DesignTokens.Json.Printing
import DesignTokens.Output

/-!
# Written forms: outputs

`Output.pieces` is the text of an output as it goes to a storage; `Output.jsonText` is the same as a
whole.
-/

namespace DesignTokens

open Json (Names Codec RecordForm Field)

/-! ## Reports -/

def RatioConflict.form : RecordForm RatioConflict where
  blank := default
  fields := [
    .required "key" CellKey.codec (·.key) fun v r => { r with key := v },
    .required "variable" VariableId.codec (·.id) fun v r => { r with id := v },
    .required "ratios" (Codec.list Codec.float) (·.ratios) fun v r => { r with ratios := v }]

def UnmatchedToken.form : RecordForm UnmatchedToken where
  blank := default
  fields := [
    .required "key" CellKey.codec (·.key) fun v r => { r with key := v },
    .required "scope" Codec.text (·.scope) fun v r => { r with scope := v },
    .required "path" Codec.text (·.path) fun v r => { r with path := v }]

def UnmatchedToken.codec : Codec UnmatchedToken := UnmatchedToken.form.codec

def RatioReport.form : RecordForm RatioReport where
  blank := {}
  fields := [
    .required "identity" Codec.count (·.identity) fun v r => { r with identity := v },
    .required "name_pattern" Codec.count (·.namePattern) fun v r => { r with namePattern := v },
    .required "value_pattern" Codec.count (·.valuePattern) fun v r => { r with valuePattern := v },
    .required "skipped_symbolic" Codec.count (·.symbolic) fun v r =>
      { r with symbolic := v },
    .required "conflicts" (Codec.list RatioConflict.form.codec) (·.conflicts) fun v r =>
      { r with conflicts := v },
    .required "unenriched" (Codec.list UnmatchedToken.codec) (·.unmatched) fun v r =>
      { r with unmatched := v }]

def RatioReport.codec : Codec RatioReport := RatioReport.form.codec

/-! ## Summaries -/

def Diagnostic.form : RecordForm Diagnostic where
  blank := default
  fields := [
    .required "kind" FindingKind.codec (·.kind) fun v r => { r with kind := v },
    .required "subject" Codec.text (·.subject) fun v r => { r with subject := v },
    .required "detail" Codec.text (·.detail) fun v r => { r with detail := v },
    .required "occurrences" Codec.count (·.occurrences) fun v r => { r with occurrences := v }]

def Diagnostic.codec : Codec Diagnostic := Diagnostic.form.codec

def Summary.form : RecordForm Summary where
  blank := {}
  fields := [
    .required "counts" (Codec.table FindingKind.names.name FindingKind.names.find? Codec.count)
      (·.counts) fun v r => { r with counts := v },
    .required "enriched" Codec.count (·.assigned) fun v r => { r with assigned := v },
    .required "unenriched" (Codec.list UnmatchedToken.codec) (·.unmatched) fun v r =>
      { r with unmatched := v },
    .required "diagnostics" (Codec.list Diagnostic.codec) (·.diagnostics) fun v r =>
      { r with diagnostics := v }]

def Summary.codec : Codec Summary := Summary.form.codec

/-! ## The whole -/

def Output.form : RecordForm Output where
  blank := {}
  fields := [
    .required "tokens" TokenSet.codec (·.tokens) fun v r => { r with tokens := v },
    .required "enrichment" RatioReport.codec (·.ratios) fun v r =>
      { r with ratios := v },
    .required "summary" Summary.codec (·.summary) fun v r => { r with summary := v }]

def Output.codec : Codec Output := Output.form.codec

/-- The pieces of an output as a document, without the line break at its end. -/
def Output.pieces (output : Output) : List String := (Output.codec.encode output).pieces 0

/-- An output as the text of a document. -/
def Output.jsonText (output : Output) : String := (Output.codec.encode output).pretty ++ "\n"

/-- A token set as the text of a document. -/
def TokenSet.jsonText (tokens : TokenSet) : String := (TokenSet.codec.encode tokens).pretty ++ "\n"

end DesignTokens
