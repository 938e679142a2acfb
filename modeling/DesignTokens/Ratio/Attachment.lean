import DesignTokens.Ratio.Report
import DesignTokens.Ratio.Sibling
import DesignTokens.Options

/-!
# Ratios for line heights

A standalone line height is a length.  To be of use at another font size it needs its ratio to the
size that it was made for, which `attachRatios` looks for in the cells of brand and breakpoint:

1. a composite of the cell is bound to a variable of the token's chain (`identity`);
2. the file has a font size of the same name (`namePattern`);
3. all composites of the cell with this line height have one ratio (`valuePattern`).

The first reasoning that applies counts.  A line height that refers to a layer that varies is left
as it is; one for which no reasoning applies is reported.

One pass goes through the cells.  It changes the tokens in their places, so a cell is met after the
ones before it have been changed, and all cells report to one report.
-/

namespace DesignTokens

/-- What becomes of a token. -/
inductive Outcome where
  /-- The token is no line height. -/
  | untouched
  /-- The token refers to a layer that varies. -/
  | symbolic
  | assigned (ratio : LineHeightRatio)
  /-- No reasoning gives the ratio of the line height. -/
  | unmatched
  deriving DecidableEq

namespace Ratio

variable (index : RatioIndex) (options : RatioOptions) (file : TokenFile)

/-- The ratio that composites give to the chain of a token: that of the first variable with one. -/
def identityRatio? (token : Token) : Option Binary64 := token.chain.findSome? index.ratioOf?

/-- The ratio of a line height, by the first reasoning that applies. -/
def ratio? (token : Token) (height : Binary64) : Option LineHeightRatio :=
  match identityRatio? index token with
  | some ratio => some ⟨ratio, .identity⟩
  | none => match Sibling.ratio? file token height with
    | some ratio => some ⟨ratio, .namePattern⟩
    | none =>
      if options.valuePattern then (index.ratioOfValue? height).map (⟨·, .valuePattern⟩) else none

/-- What becomes of a token of a file. -/
def outcome (token : Token) : Outcome :=
  if token.isLineHeight then
    if token.endpoint.any Endpoint.isSymbolic then .symbolic
    else match token.value.float?.bind (ratio? index options file token) with
      | some ratio => .assigned ratio
      | none => .unmatched
  else .untouched

/-- A token after its outcome. -/
def apply (token : Token) : Outcome → Token
  | .assigned ratio => { token with lineHeightRatio := some ratio }
  | .untouched | .symbolic | .unmatched => token

/-! ## Reporting -/

/-- The finding about a line height without a ratio. -/
def unmatchedFinding (token : Token) : Finding where
  kind := .missingRatio
  subject := s!"[{file.key.text}] {token.path}"
  detail :=
    if token.value.isResolved then "no composite, sibling, or unambiguous value match"
    else "lineHeight value itself is unresolved"

/-- The report on a token after its outcome. -/
def reportToken (token : Token) : Outcome → Logged RatioReport
  | .untouched => pure {}
  | .symbolic => pure { symbolic := 1 }
  | .assigned ratio => pure (.ofSource ratio.source)
  | .unmatched =>
    .note { unmatched := [⟨file.key, file.scope, token.path⟩] } (unmatchedFinding file token)

/-- The report on a variable that the composites of a cell disagree about. -/
def reportDispute (key : CellKey) (dispute : Dispute) : Logged RatioReport :=
  .note { conflicts := [⟨key, dispute.id, dispute.ratios⟩] } {
    kind := .ratioConflict
    subject := s!"[{key.text}] {dispute.id.text}"
    detail := String.intercalate " vs " (dispute.ratios.map Binary64.plainText) }

/-! ## The pass over the cells -/

/-- A pass changes what it goes through and keeps a report on it up to date. -/
abbrev Pass := StateT RatioReport Logged

/-- Something more is reported. -/
def Pass.add (added : Logged RatioReport) : Pass Unit := do
  let added ← added
  modify (· ++ added)

/-- A token is reported on and gets its ratio, if it is assigned one. -/
def passToken (token : Token) : Pass Token := do
  let outcome := outcome index options file token
  Pass.add (reportToken file token outcome)
  return apply token outcome

/-- The tokens of a file one after the other.  Siblings are looked for in the file as it was. -/
def passFile : Pass TokenFile := do
  return { file with tokens := ← file.tokens.mapM (passToken index options file) }

/-- One cell: what is disputed is reported first, and then its files are gone through.  The files of
other cells stay as they are. -/
def passCell (options : RatioOptions) (tokens : TokenSet) (key : CellKey) : Pass TokenSet := do
  let index := RatioIndex.ofCell tokens key
  index.disputes.forM fun dispute => Pass.add (reportDispute key dispute)
  let files ← tokens.files.mapM fun file =>
    if file.key == key then passFile index options file else pure file
  return { tokens with files }

end Ratio

/-- A token set with the ratios of its line heights, and the report on them, cell by cell. -/
def TokenSet.attachRatios (tokens : TokenSet) (options : RatioOptions) :
    Logged (TokenSet × RatioReport) :=
  (tokens.ratioCells.foldlM (Ratio.passCell options) tokens).run {}

end DesignTokens
