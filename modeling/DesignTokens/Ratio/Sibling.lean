import DesignTokens.TokenSet

/-!
# Sibling font sizes

A line height and the font size that goes with it have paths that differ only in how they end:
`labelLineHeight` beside `labelFontSize` in one file.  The stem of such a path is the rest of it,
the parts before the leaf included, so equal leaves under different parents are no siblings.
-/

namespace DesignTokens

namespace Sibling

def lineHeightEnding : String := "lineheight"

def fontSizeEnding : String := "fontsize"

/-- A lowered path without the ending of its leaf. -/
def stem? (ending path : String) : Option String :=
  let path := Text.lower path
  if Text.endsWith (Text.leaf path) ending then Text.dropEnd? path ending else none

/-- The font size that a token holds for a stem. -/
def sizeFor? (stem : String) (token : Token) : Option Binary64 :=
  if stem? fontSizeEnding token.path = some stem then token.value.float? else none

/-- The last font size of a stem in a file. -/
def fontSize? (file : TokenFile) (stem : String) : Option Binary64 :=
  file.tokens.reverse.findSome? (sizeFor? stem)

/-- The ratio of a line height to its sibling in a file, if that is positive. -/
def ratio? (file : TokenFile) (token : Token) (height : Binary64) : Option Binary64 := do
  let stem ← stem? lineHeightEnding token.path
  let size ← fontSize? file stem
  if 0 < size then some (height / size).toThousandths else none

end Sibling

/-- Whether a token is a line height: a number whose name ends so. -/
def Token.isLineHeight (token : Token) : Bool :=
  token.type == .float && Text.endsWith (Text.lower token.leaf) Sibling.lineHeightEnding

end DesignTokens
