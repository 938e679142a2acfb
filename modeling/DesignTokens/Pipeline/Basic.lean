import DesignTokens.TokenSet

/-!
# Pipelines

A `Pipeline` has all that a run depends on: a graph, a configuration and options.  `create` builds
one from an export and a configuration that passes its checks.

The tokens of a run are laid out in cells.  A `Cell` is a place in the matrix of axes, with the keys
that name it and the context in which its tokens are resolved.
-/

namespace DesignTokens

structure Pipeline where
  graph : Graph
  config : Configuration
  options : Options
  deriving DecidableEq

/-- A cell of a matrix. -/
structure Cell where
  key : CellKey
  context : Context
  deriving DecidableEq

namespace Pipeline

/-- A pipeline for an export. -/
def create (source : Export) (config : Configuration) (options : Options) :
    Except Error Pipeline := do
  config.validate.mapError .config
  let graph ← (Graph.ofExport source config.collections).mapError .badExport
  return ⟨graph, config, options⟩

variable (p : Pipeline)

def withOptions (options : Options) : Pipeline := { p with options }

/-- The places where walks of the pipeline stop. -/
def stops (flags : Acceptance) : Stops := ⟨flags, p.options.componentPrefix⟩

/-! ## Cells -/

/-- The cell that some keys name. -/
def cell (key : CellKey) : Except ConfigurationProblem Cell := do
  return ⟨key, ← p.config.context key⟩

/-- The cells of all brands and breakpoints. -/
def breakpointCells : Except ConfigurationProblem (List Cell) :=
  (p.config.brands.flatMap fun brand => p.config.breakpoints.map fun breakpoint =>
    CellKey.ofBrandBreakpoint brand.name breakpoint.key).mapM p.cell

/-- The cells of the brands with a palette and all color modes. -/
def colorCells : Except ConfigurationProblem (List Cell) :=
  (p.config.brandsWithPalette.flatMap fun brand => p.config.colorModes.map fun colorMode =>
    CellKey.ofBrandColorMode brand.name colorMode.key).mapM p.cell

/-! ## Standalone tokens -/

/-- The token of a variable. -/
def token (context : Context) (v : Variable) : Logged Token := do
  let resolution ← p.graph.resolve context v.id
  let endpoint ← p.graph.endpoint context (p.stops p.options.tokens) v.id
  return {
    path := v.path
    id := v.id
    type := v.type
    value := resolution.value
    chain := resolution.chain
    endpoint }

/-! ## Bound properties -/

/-- The value of a variable and the binding to it. -/
def bind (context : Context) (flags : Acceptance) (id : VariableId) : Logged (Value × Binding) := do
  let value ← p.graph.value context id
  let endpoint ← p.graph.endpointOfReference context (p.stops flags) id
  return (value, ⟨id, p.graph.pathOf id, endpoint⟩)

/-- A number that is bound to a variable. -/
def bindNumber (context : Context) (flags : Acceptance) (id : VariableId) :
    Logged (Property Binary64) := do
  let (value, binding) ← p.bind context flags id
  return .bound value.float? binding

/-- A text that is bound to a variable. -/
def bindText (context : Context) (flags : Acceptance) (id : VariableId) :
    Logged (Property String) := do
  let (value, binding) ← p.bind context flags id
  return .bound value.plainText? binding

end Pipeline

end DesignTokens
