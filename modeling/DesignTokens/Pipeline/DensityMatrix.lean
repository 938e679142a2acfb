import DesignTokens.Pipeline.Basic

/-!
# The density matrix

A dimension of the breakpoint layer whose chain runs through the density layer is resolved once more
for each breakpoint and each density of a brand.  It is enough that the chain does so at one
breakpoint.  Without densities there is no matrix.
-/

namespace DesignTokens.Pipeline

variable (p : Pipeline)

/-- The cells of a brand and all breakpoints. -/
def breakpointCellsOf (brand : Brand) : Except ConfigurationProblem (List Cell) :=
  (p.config.breakpoints.map fun breakpoint =>
    CellKey.ofBrandBreakpoint brand.name breakpoint.key).mapM p.cell

/-- The cells of a brand and all pairs of breakpoint and density. -/
def densityCellsOf (brand : Brand) : Except ConfigurationProblem (List Cell) :=
  (p.config.breakpoints.flatMap fun breakpoint => p.config.densities.map fun density =>
    { CellKey.ofBrandBreakpoint brand.name breakpoint.key with density := some density.key }).mapM
      p.cell

/-- Whether a variable is a dimension of the breakpoint layer. -/
def isBreakpointDimension (v : Variable) : Bool :=
  p.graph.kind? v == some (.semantic .breakpoint) && v.type != .color

def densityCell (v : Variable) (cell : Cell) : Logged DensityCell := do
  let value ← p.graph.value cell.context v.id
  let endpoint ← p.graph.endpoint cell.context (p.stops p.options.tokens) v.id
  return ⟨cell.key, value, endpoint⟩

/-- The row of a variable, if its chain reaches the density layer in one of the probed cells. -/
def densityToken? (brand : Brand) (probes cells : List Cell) (v : Variable) :
    Logged (Option DensityToken) := do
  let reaches ← Logged.anyOf probes fun cell => p.graph.reachesDensity cell.context v.id
  if reaches then
    let cells ← Logged.forList cells (p.densityCell v)
    return some ⟨brand.name, v.path, v.id, cells⟩
  else return none

/-- The rows of a brand. -/
def densityRows (brand : Brand) (probes cells : List Cell) : Logged (List DensityToken) := do
  let rows ← Logged.forList (p.graph.nodes.filter p.isBreakpointDimension)
    (p.densityToken? brand probes cells)
  return rows.filterMap id

/-- The density matrix of all brands. -/
def densityMatrix : Except ConfigurationProblem (Logged (List DensityToken)) := do
  if p.config.densities.isEmpty then return pure []
  let brands ← p.config.brands.mapM fun brand => do
    return (brand, ← p.breakpointCellsOf brand, ← p.densityCellsOf brand)
  return List.flatten <$> Logged.forList brands fun (brand, probes, cells) =>
    p.densityRows brand probes cells

end DesignTokens.Pipeline
