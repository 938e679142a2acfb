import DesignTokens.TokenSet

/-!
# The ratios of a cell

A composite that knows its font size and its line height says which ratio belongs to the variable
that its line height is bound to, and to line heights of the same size.  A `RatioIndex` has what the
composites of a cell agree on:

* `byIdentity`, the ratio of each variable for which all composites have the same;
* `conflicted`, the different ratios of the variables for which they have several, and
  `conflictOrder`, these variables in the order in which that came to light;
* `byValue`, for each line height in hundredths the ratio of all composites, or `none` if they have
  several.

A variable moves from the first table to the second with the first ratio that differs, and stays
there.
-/

namespace DesignTokens

/-- A variable with different ratios. -/
structure Dispute where
  id : VariableId
  ratios : List Binary64
  deriving DecidableEq

structure RatioIndex where
  byIdentity : Table VariableId Binary64 := .empty
  conflicted : Table VariableId (List Binary64) := .empty
  conflictOrder : List VariableId := []
  byValue : Table Int (Option Binary64) := .empty
  deriving DecidableEq

namespace RatioIndex

/-- The key of a line height: hundredths, rounded to a whole number and kept within 64 bits. -/
def hundredths (height : Binary64) : Int :=
  (height * 100).round.toIntClamped (-Int.pow 2 63) (Int.pow 2 63 - 1)

def ratioOf? (index : RatioIndex) (id : VariableId) : Option Binary64 := index.byIdentity.get? id

def ratioOfValue? (index : RatioIndex) (height : Binary64) : Option Binary64 :=
  (index.byValue.get? (hundredths height)).join

/-- Disputes are taken out of a table one after the other. -/
def takeDisputes (conflicted : Table VariableId (List Binary64)) : List VariableId → List Dispute
  | [] => []
  | id :: rest =>
    ⟨id, (conflicted.get? id).getD []⟩ :: takeDisputes (conflicted.erase id) rest

/-- The variables with different ratios, in the order in which that came to light. -/
def disputes (index : RatioIndex) : List Dispute :=
  takeDisputes index.conflicted index.conflictOrder

/-- A list of different numbers with one more. -/
def addDifferent (ratio : Binary64) (ratios : List Binary64) : List Binary64 :=
  if ratios.any fun r => r.numericallyEqual ratio then ratios else ratios ++ [ratio]

/-- The index with one more ratio for a variable. -/
def addIdentity (index : RatioIndex) (id : VariableId) (ratio : Binary64) : RatioIndex :=
  match index.conflicted.get? id with
  | some ratios =>
    { index with conflicted := index.conflicted.insert id (addDifferent ratio ratios) }
  | none =>
    match index.byIdentity.get? id with
    | none => { index with byIdentity := index.byIdentity.insert id ratio }
    | some existing =>
      if existing.numericallyEqual ratio then index
      else
        { index with
          byIdentity := index.byIdentity.erase id
          conflicted := index.conflicted.insert id [existing, ratio]
          conflictOrder := index.conflictOrder ++ [id] }

/-- The index with one more ratio for a line height. -/
def addValue (index : RatioIndex) (height ratio : Binary64) : RatioIndex :=
  let key := hundredths height
  let agreed := match index.byValue.get? key with
    | none => some ratio
    | some known => known.filter fun r => r.numericallyEqual ratio
  { index with byValue := index.byValue.insert key agreed }

/-- The index with what one more composite says. -/
def addComposite (index : RatioIndex) (t : Typography) : RatioIndex :=
  match t.ratio?, t.lineHeight.value with
  | some ratio, some height =>
    let index := index.addValue height ratio
    match t.lineHeight.boundTo? with
    | some id => index.addIdentity id ratio
    | none => index
  | _, _ => index

/-- The index of the composites of a cell. -/
def ofCell (tokens : TokenSet) (key : CellKey) : RatioIndex :=
  (tokens.compositesOf key).foldl (fun index token => index.addComposite token.typography) {}

end RatioIndex

end DesignTokens
