import DesignTokens.Pipeline.Basic

/-!
# Files of standalone tokens

Variables that are no part of a composite become tokens of their own: primitives once, dimensions in
each cell of brand and breakpoint, colors in each cell of color mode and brand with a palette.

In a cell the tokens are sorted into files by scope, which is the component that a variable belongs
to, or `semantic`.  Files come in the order of their first tokens.

All files stand in one list.  Other cells have files of the same scopes in it, so a cell remembers
where its own begin and looks for a scope from there on only.
-/

namespace DesignTokens

namespace TokenFile

/-- Files with one more token.  It goes to the file of its scope among those from some place on, and
if there is none, it begins a file behind all others. -/
def addToken (first : Nat) (key : CellKey) (scope : String) (token : Token)
    (files : List TokenFile) : List TokenFile :=
  match (files.drop first).findIdx? fun file => file.scope == scope with
  | some i => files.modify (first + i) fun file => { file with tokens := file.tokens ++ [token] }
  | none => files ++ [⟨key, scope, [token]⟩]

end TokenFile

namespace Pipeline

variable (p : Pipeline)

/-- The scope of a path: for a component variable the part behind the prefix, if more follows it. -/
def scope (path : String) : String :=
  let componentPrefix := p.options.componentPrefix
  let component := if componentPrefix.isEmpty then none
    else (Text.dropStart? path componentPrefix).bind Text.firstOfMany?
  component.getD "semantic"

/-- Whether a variable has tokens in the cells of brand and breakpoint. -/
def isDimension (v : Variable) : Bool :=
  match p.graph.kind? v with
  | some (.semantic .breakpoint) | some .component => v.type != .color
  | _ => false

/-- Whether a variable has tokens in the cells of brand and color mode. -/
def isColor (v : Variable) : Bool :=
  match p.graph.kind? v with
  | some (.semantic .colorMode) | some .component => v.type == .color
  | _ => false

/-- Files with the tokens that the selected variables have in a cell. -/
def addCell (select : Variable → Bool) (files : List TokenFile) (cell : Cell) :
    Logged (List TokenFile) :=
  let first := files.length
  (p.graph.nodes.filter select).foldlM (fun files v => do
    let token ← p.token cell.context v
    return TokenFile.addToken first cell.key (p.scope v.path) token files) files

/-- The file of a primitive collection. -/
def primitiveFile (collection : Collection) : Logged TokenFile := do
  let tokens ← Logged.forList (p.graph.variablesIn collection.id) (p.token .unspecified)
  return ⟨{}, collection.name, tokens⟩

/-- All files: those of the primitives, then the dimensions, then the colors. -/
def tokenFiles : Except ConfigurationProblem (Logged (List TokenFile)) := do
  let breakpointCells ← p.breakpointCells
  let colorCells ← p.colorCells
  return do
    let files ← Logged.forList
      (p.graph.collections.filter fun collection => collection.kind == .primitive) p.primitiveFile
    let files ← breakpointCells.foldlM (p.addCell p.isDimension) files
    colorCells.foldlM (p.addCell p.isColor) files

end Pipeline

end DesignTokens
