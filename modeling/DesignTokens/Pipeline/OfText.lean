import DesignTokens.Format.Configuration
import DesignTokens.Format.Export
import DesignTokens.Pipeline.Run

/-!
# Pipelines from texts
-/

namespace DesignTokens

/-- A pipeline for the texts of an export and a configuration, with the default options. -/
def Pipeline.ofTexts (source config : Json.Text) : Except Error Pipeline := do
  let source ← Export.ofText source
  let config ← Configuration.ofText config
  Pipeline.create source config {}

end DesignTokens
