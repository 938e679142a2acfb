import DesignTokens.Composite

/-!
# Token sets

All tokens of a run: files of standalone tokens, typography and effect composites, and the density
matrix.  A file holds the tokens of one scope in one cell.
-/

namespace DesignTokens

/-- Which reasoning gave a line height its ratio. -/
inductive RatioSource where
  /-- A composite is bound to a variable of the chain. -/
  | identity
  /-- A font size of the same name stands in the same file. -/
  | namePattern
  /-- The composites with the same line height have one ratio. -/
  | valuePattern
  deriving DecidableEq, Inhabited

structure LineHeightRatio where
  ratio : Binary64
  source : RatioSource
  deriving DecidableEq, Inhabited

structure Token where
  path : String
  id : VariableId
  type : VariableType
  value : Value
  chain : Trail
  endpoint : Option Endpoint := none
  lineHeightRatio : Option LineHeightRatio := none
  deriving DecidableEq, Inhabited

def Token.leaf (token : Token) : String := Text.leaf token.path

structure TokenFile where
  key : CellKey
  scope : String
  tokens : List Token
  deriving DecidableEq, Inhabited

namespace TokenFile

def token? (file : TokenFile) (path : String) : Option Token :=
  file.tokens.find? fun token => token.path == path

def tokenByLeaf? (file : TokenFile) (leaf : String) : Option Token :=
  file.tokens.find? fun token => token.leaf == leaf

end TokenFile

/-- A token of the density matrix in one cell. -/
structure DensityCell where
  key : CellKey
  value : Value
  endpoint : Option Endpoint := none
  deriving DecidableEq, Inhabited

/-- A token whose chain runs through the density layer, in all cells of one brand. -/
structure DensityToken where
  brand : String
  path : String
  id : VariableId
  cells : List DensityCell
  deriving DecidableEq, Inhabited

def DensityToken.cell? (token : DensityToken) (breakpoint density : String) : Option DensityCell :=
  token.cells.find? fun cell =>
    cell.key.breakpoint == some breakpoint && cell.key.density == some density

structure TokenSet where
  files : List TokenFile := []
  typography : List TypographyToken := []
  effects : List EffectToken := []
  density : List DensityToken := []
  /-- The brands without a palette and the brands whose colors they take. -/
  paletteInheritance : Table String String := .empty
  deriving DecidableEq, Inhabited

namespace TokenSet

variable (tokens : TokenSet)

def filesOf (key : CellKey) : List TokenFile := tokens.files.filter fun file => file.key == key

def file? (key : CellKey) (scope : String) : Option TokenFile :=
  tokens.files.find? fun file => file.key == key && file.scope == scope

def compositesOf (key : CellKey) : List TypographyToken :=
  tokens.typography.filter fun token => token.key == key

def typography? (key : CellKey) (name : String) : Option TypographyToken :=
  tokens.typography.find? fun token => token.key == key && token.name == name

def effect? (key : CellKey) (name : String) : Option EffectToken :=
  tokens.effects.find? fun token => token.key == key && token.name == name

/-- The cells of brand and breakpoint that have typography or files, in order, each once. -/
def ratioCells : List CellKey :=
  let keys := tokens.typography.map TypographyToken.key ++ tokens.files.map TokenFile.key
  (Table.ofList ((keys.filter CellKey.mayHaveRatios).map fun key => (key, ()))).keys

end TokenSet

end DesignTokens
