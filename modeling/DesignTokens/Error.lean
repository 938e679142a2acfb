import DesignTokens.Configuration
import DesignTokens.Finding
import DesignTokens.Variable
import DesignTokens.Json.Document

/-!
# Errors

What makes an operation fail for good, as opposed to a finding.  `Error.message` is its wording.
-/

namespace DesignTokens

/-- Why no graph can be built from an export. -/
inductive ExportProblem where
  | noModes (collection : String)
  | repeatedCollection (id : CollectionId)
  | unknownCollection (path : String) (id : CollectionId)
  | foreignMode (path : String) (mode : ModeId) (collection : String)
  | repeatedVariable (id : VariableId)
  deriving DecidableEq

open Text in
def ExportProblem.message : ExportProblem → String
  | .noModes collection => "collection " ++ quote collection ++ " declares no modes"
  | .repeatedCollection id => "duplicate collection id " ++ quote id.text
  | .unknownCollection name id =>
    "variable " ++ quote name ++ " belongs to unknown collection "
      ++ quote id.text
  | .foreignMode name mode collection =>
    "variable " ++ quote name ++ " has a value for mode "
      ++ quote mode.text ++ " outside collection " ++ quote collection
  | .repeatedVariable id => "duplicate variable id " ++ quote id.text

/-- Why bytes cannot be stored. -/
inductive StorageProblem where
  | full
  | flushFailed
  deriving DecidableEq

def StorageProblem.message : StorageProblem → String
  | .full => "disk full"
  | .flushFailed => "flush failed"

inductive Error where
  | badExport (problem : ExportProblem)
  | badJson (flaw : Json.Flaw)
  /-- A document could not be stored. -/
  | unwritten (problem : StorageProblem)
  | config (problem : ConfigurationProblem)
  /-- There are findings of fatal kinds, so many of each. -/
  | policy (violations : List (FindingKind × Nat))
  | sink (name : String) (cause : Error)
  | storage (problem : StorageProblem)

namespace Error

open Text

def flawMessage : Json.Flaw → String
  | .ended => "the text ends early"
  | .malformed => "the text is not well-formed"
  | .mismatched => "the text has another shape"

def message : Error → String
  | .badExport problem => "Ingest error: " ++ problem.message
  | .badJson flaw => "JSON error: " ++ flawMessage flaw
  | .unwritten problem => "JSON error: " ++ problem.message
  | .config problem => "Config error: " ++ problem.message
  | .policy violations =>
    "Validation policy violated: " ++ String.intercalate ", "
      (violations.map fun violation => s!"{violation.1.text} ({violation.2})")
  | .sink name cause => "Sink " ++ quote name ++ " failed: " ++ cause.message
  | .storage problem => "IO error: " ++ problem.message

end Error

end DesignTokens
