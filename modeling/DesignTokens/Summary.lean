import DesignTokens.Ratio.Report
import DesignTokens.Error
import DesignTokens.Options

/-!
# Summaries of runs

A `Summary` counts the diagnostics of a run by kind and lists the line heights that are left
without a ratio.  `enforce` holds it against a policy.
-/

namespace DesignTokens

structure Summary where
  counts : Table FindingKind Nat := .empty
  /-- How many line heights got a ratio. -/
  assigned : Nat := 0
  unmatched : List UnmatchedToken := []
  diagnostics : List Diagnostic := []
  deriving DecidableEq, Inhabited

namespace Summary

/-- The summary of gathered findings.  Every kind has a count. -/
def of (ds : Diagnostics) (assigned : Nat) (unmatched : List UnmatchedToken) : Summary where
  counts := .ofList (FindingKind.all.map fun kind => (kind, ds.count kind))
  assigned
  unmatched
  diagnostics := ds.entries

/-- The count of a kind. -/
def count (summary : Summary) (kind : FindingKind) : Nat := (summary.counts.get? kind).getD 0

/-- The kinds that a policy does not allow, with their counts. -/
def violations (summary : Summary) (policy : Policy) : List (FindingKind × Nat) :=
  (policy.fatal.filter fun kind => 0 < summary.count kind).map fun kind =>
    (kind, summary.count kind)

/-- Fails if there are findings of a fatal kind. -/
def enforce (summary : Summary) (policy : Policy) : Except Error Unit :=
  let violations := summary.violations policy
  if violations.isEmpty then .ok () else .error (.policy violations)

/-! ## Text -/

/-- Lines as one text, each with a line break at its end. -/
def linesText (lines : List String) : String := String.join (lines.map fun line => line ++ "\n")

def unmatchedLine (token : UnmatchedToken) : String :=
  s!"    [{token.key.text}] {token.scope} :: {token.path}"

/-- The lines of a summary for people. -/
def lines (summary : Summary) : List String :=
  "token-graph run summary"
    :: summary.counts.entries.map (fun entry => s!"  {entry.1.text}: {entry.2}")
    ++ s!"  lineHeight ratios attached: {summary.assigned}"
    :: if summary.unmatched.isEmpty then []
      else "  left unenriched (add an explicit binding upstream):"
        :: summary.unmatched.map unmatchedLine

def text (summary : Summary) : String := linesText summary.lines

/-- The line of a diagnostic. -/
def diagnosticLine (d : Diagnostic) : String :=
  s!"  {d.kind.text}: {d.subject} ({d.detail}) x{d.occurrences}"

/-- The text of a summary followed by its diagnostics. -/
def fullText (summary : Summary) : String :=
  linesText (summary.lines ++ summary.diagnostics.map diagnosticLine)

end Summary

end DesignTokens
