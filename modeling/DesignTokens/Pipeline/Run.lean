import DesignTokens.Ratio.Attachment
import DesignTokens.Output
import DesignTokens.Pipeline.Tokens

/-!
# Runs

A run builds the tokens, gives the line heights their ratios, sums up all findings, and at last
applies the policy.
-/

namespace DesignTokens.Pipeline

variable (p : Pipeline)

/-- The output of a run under the policy that nothing is fatal, with the findings on the way. -/
def outcome : Except ConfigurationProblem (Logged Output) := do
  let tokens ← p.tokens
  let complete := tokens >>= fun set => set.attachRatios p.options.ratios
  let (set, report) := complete.value
  let diagnostics := Diagnostics.pushAll {} complete.findings
  return ⟨⟨set, report, .of diagnostics report.assigned report.unmatched⟩, complete.findings⟩

/-- The output of a run. -/
def run : Except Error Output := do
  let output := (← p.outcome.mapError .config).value
  output.summary.enforce p.options.policy
  return output

end DesignTokens.Pipeline
