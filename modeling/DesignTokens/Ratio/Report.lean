import DesignTokens.Ratio.Index

/-!
# Reports on ratios

What became of the line heights of a token set: how many got a ratio, and by which reasoning; which
ones were left without; and which variables the composites of a cell disagree about.
-/

namespace DesignTokens

/-- A variable that the composites of a cell disagree about. -/
structure RatioConflict where
  key : CellKey
  id : VariableId
  ratios : List Binary64
  deriving DecidableEq, Inhabited

/-- A line height without a ratio. -/
structure UnmatchedToken where
  key : CellKey
  scope : String
  path : String
  deriving DecidableEq, Inhabited

@[ext]
structure RatioReport where
  identity : Nat := 0
  namePattern : Nat := 0
  valuePattern : Nat := 0
  /-- How many line heights refer to a layer that varies, and so need no ratio. -/
  symbolic : Nat := 0
  conflicts : List RatioConflict := []
  unmatched : List UnmatchedToken := []
  deriving DecidableEq, Inhabited

namespace RatioReport

/-- How many line heights got a ratio. -/
def assigned (report : RatioReport) : Nat :=
  report.identity + report.namePattern + report.valuePattern

/-- Two reports as one. -/
def append (report other : RatioReport) : RatioReport where
  identity := report.identity + other.identity
  namePattern := report.namePattern + other.namePattern
  valuePattern := report.valuePattern + other.valuePattern
  symbolic := report.symbolic + other.symbolic
  conflicts := report.conflicts ++ other.conflicts
  unmatched := report.unmatched ++ other.unmatched

instance : Append RatioReport := ⟨append⟩

/-- Several reports as one. -/
def sum (reports : List RatioReport) : RatioReport := reports.foldl append {}

/-- The report on one ratio. -/
def ofSource : RatioSource → RatioReport
  | .identity => { identity := 1 }
  | .namePattern => { namePattern := 1 }
  | .valuePattern => { valuePattern := 1 }

end RatioReport

end DesignTokens
