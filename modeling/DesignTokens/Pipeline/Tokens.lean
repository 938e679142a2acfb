import DesignTokens.Pipeline.Typography
import DesignTokens.Pipeline.Effects
import DesignTokens.Pipeline.TokenFiles
import DesignTokens.Pipeline.DensityMatrix

/-!
# The tokens of a pipeline

`tokens` builds every category, without ratios for the line heights.
-/

namespace DesignTokens.Pipeline

variable (p : Pipeline)

/-- The brands without a palette and whose colors they take. -/
def paletteInheritance : Table String String :=
  .ofList (p.config.brands.filterMap fun brand =>
    brand.colorsFrom.map fun source => (brand.name, source))

/-- All tokens. -/
def tokens : Except ConfigurationProblem (Logged TokenSet) := do
  let files ← p.tokenFiles
  let typography ← p.typography
  let effects ← p.effects
  let density ← p.densityMatrix
  return do
    return ⟨← files, ← typography, ← effects, ← density, p.paletteInheritance⟩

end DesignTokens.Pipeline
