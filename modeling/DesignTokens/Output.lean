import DesignTokens.Summary
import DesignTokens.TokenSet

/-!
# Outputs

What a run hands over: the tokens, the report on their line heights, and the summary.
-/

namespace DesignTokens

structure Output where
  tokens : TokenSet := {}
  ratios : RatioReport := {}
  summary : Summary := {}
  deriving DecidableEq, Inhabited

end DesignTokens
