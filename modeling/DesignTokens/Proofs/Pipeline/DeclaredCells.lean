import DesignTokens.Proofs.Pipeline.Building

/-!
# The cells are those that the configuration declares

Each builder goes through brands and modes, names a cell by their keys, and has the keys looked up
again.  In a pipeline that was created the configuration is valid, so what is found for a key is the
very entry that the key was taken from.  Hence no look-up fails, whatever the graph and the options,
and the enumerated cells can be written down (`cell_ofBrandBreakpoint`, `cell_ofBrandColorMode`,
`cell_ofDensity`).
-/

namespace DesignTokens

/-! ## Declared cells -/

namespace Cell

/-- The cell of a brand and a breakpoint. -/
def ofBrandBreakpoint (brand : Brand) (breakpoint : AxisMode) : Cell where
  key := { brand := some brand.name, breakpoint := some breakpoint.key }
  context := { brandName := some brand.name, breakpoint := some breakpoint.mode }

/-- The cell of a brand and a color mode. -/
def ofBrandColorMode (brand : Brand) (colorMode : AxisMode) : Cell where
  key := { brand := some brand.name, colorMode := some colorMode.key }
  context := { brandName := some brand.name, colorMode := some colorMode.mode }

/-- The cell of a brand, a breakpoint and a density. -/
def ofDensity (brand : Brand) (breakpoint density : AxisMode) : Cell where
  key :=
    { brand := some brand.name
      breakpoint := some breakpoint.key
      density := some density.key }
  context :=
    { brandName := some brand.name
      breakpoint := some breakpoint.mode
      density := some density.mode }

end Cell

namespace Configuration

/-- The cells of a brand and all breakpoints. -/
def cellsOf (config : Configuration) (brand : Brand) : List Cell :=
  config.breakpoints.map (Cell.ofBrandBreakpoint brand)

/-- The cells of a brand and all pairs of breakpoint and density. -/
def densityCellsOf (config : Configuration) (brand : Brand) : List Cell :=
  config.breakpoints.flatMap fun breakpoint =>
    config.densities.map (Cell.ofDensity brand breakpoint)

end Configuration

namespace Pipeline

variable {p : Pipeline} {brand : Brand}

theorem cell_ofBrandBreakpoint (valid : p.config.Valid) (hbrand : brand ∈ p.config.brands)
    {breakpoint : AxisMode} (hbreakpoint : breakpoint ∈ p.config.breakpoints) :
    p.cell (.ofBrandBreakpoint brand.name breakpoint.key) =
      .ok (.ofBrandBreakpoint brand breakpoint) := by
  have hlisted := Configuration.exists_brand_of_mem hbrand
  have hmode : p.config.mode? .breakpoint breakpoint.key = .ok breakpoint.mode :=
    valid.mode?_eq_ok hbreakpoint
  exact cell_eq_ok_iff.mpr ⟨rfl,
    Configuration.context_eq_ok_iff.mpr ⟨hlisted, rfl, hmode, rfl, rfl⟩⟩

theorem cell_ofBrandColorMode (valid : p.config.Valid) (hbrand : brand ∈ p.config.brands)
    {colorMode : AxisMode} (hcolorMode : colorMode ∈ p.config.colorModes) :
    p.cell (.ofBrandColorMode brand.name colorMode.key) =
      .ok (.ofBrandColorMode brand colorMode) := by
  have hlisted := Configuration.exists_brand_of_mem hbrand
  have hmode : p.config.mode? .colorMode colorMode.key = .ok colorMode.mode :=
    valid.mode?_eq_ok hcolorMode
  exact cell_eq_ok_iff.mpr ⟨rfl,
    Configuration.context_eq_ok_iff.mpr ⟨hlisted, rfl, rfl, hmode, rfl⟩⟩

theorem cell_ofDensity (valid : p.config.Valid) (hbrand : brand ∈ p.config.brands)
    {breakpoint density : AxisMode} (hbreakpoint : breakpoint ∈ p.config.breakpoints)
    (hdensity : density ∈ p.config.densities) :
    p.cell
        { CellKey.ofBrandBreakpoint brand.name breakpoint.key with density := some density.key } =
      .ok (.ofDensity brand breakpoint density) := by
  have hlisted := Configuration.exists_brand_of_mem hbrand
  have hmode : p.config.mode? .breakpoint breakpoint.key = .ok breakpoint.mode :=
    valid.mode?_eq_ok hbreakpoint
  have hdensityMode : p.config.mode? .density density.key = .ok density.mode :=
    valid.mode?_eq_ok hdensity
  exact cell_eq_ok_iff.mpr ⟨rfl,
    Configuration.context_eq_ok_iff.mpr ⟨hlisted, rfl, hmode, rfl, hdensityMode⟩⟩

/-! ## Enumerations -/

theorem breakpointCells_eq (valid : p.config.Valid) :
    p.breakpointCells = .ok (p.config.brands.flatMap p.config.cellsOf) :=
  Except.mapM_pairs_eq_ok fun _ hbrand _ hbreakpoint =>
    cell_ofBrandBreakpoint valid hbrand hbreakpoint

theorem colorCells_eq (valid : p.config.Valid) :
    p.colorCells = .ok (p.config.brandsWithPalette.flatMap fun brand =>
      p.config.colorModes.map (Cell.ofBrandColorMode brand)) :=
  Except.mapM_pairs_eq_ok fun _ hbrand _ hcolorMode =>
    cell_ofBrandColorMode valid (List.mem_filter.mp hbrand).1 hcolorMode

theorem breakpointCellsOf_eq (valid : p.config.Valid) (hbrand : brand ∈ p.config.brands) :
    p.breakpointCellsOf brand = .ok (p.config.cellsOf brand) := by
  rw [breakpointCellsOf, List.mapM_map]
  exact Except.mapM_eq_ok_map fun _ hbreakpoint => cell_ofBrandBreakpoint valid hbrand hbreakpoint

theorem densityCellsOf_eq (valid : p.config.Valid) (hbrand : brand ∈ p.config.brands) :
    p.densityCellsOf brand = .ok (p.config.densityCellsOf brand) :=
  Except.mapM_pairs_eq_ok fun _ hbreakpoint _ hdensity =>
    cell_ofDensity valid hbrand hbreakpoint hdensity

/-- The density matrix goes through the declared cells of each brand. -/
theorem densityMatrix_eq (valid : p.config.Valid) :
    p.densityMatrix = .ok (if p.config.densities.isEmpty then pure [] else
      List.flatten <$> Logged.forList p.config.brands fun brand =>
        p.densityRows brand (p.config.cellsOf brand) (p.config.densityCellsOf brand)) := by
  unfold densityMatrix
  split
  · rfl
  · have hbrands : ∀ brand ∈ p.config.brands, (do
        return (brand, ← p.breakpointCellsOf brand, ← p.densityCellsOf brand)) =
          (.ok (brand, p.config.cellsOf brand, p.config.densityCellsOf brand) :
            Except ConfigurationProblem (Brand × List Cell × List Cell)) := by
      intro brand hbrand
      rw [breakpointCellsOf_eq valid hbrand, densityCellsOf_eq valid hbrand]
      rfl
    rw [Except.mapM_eq_ok_map hbrands, Except.ok_bind]
    simp only [Logged.forList, List.map_map, Function.comp_def]
    rfl

/-- **After creation no configuration is at fault.**  A pipeline that was created builds its tokens
under any options, and its runs fail for the findings that the policy does not allow and for nothing
else.  The cells are enumerated as declared: each brand with each breakpoint, each brand with a
palette of its own with each color mode, and for the density matrix each brand with its breakpoints
and densities, every time in the order of the configuration and in the context of the brand's name
and the entries' own modes. -/
theorem cells_of_create {source : Export} {config : Configuration} {options : Options}
    (created : create source config options = .ok p) (others : Options) :
    (∃ built, (p.withOptions others).tokens = .ok built) ∧
      (∀ e, (p.withOptions others).run = .error e →
        ∃ violations, violations ≠ [] ∧ e = .policy violations) ∧
      (p.withOptions others).breakpointCells = .ok (config.brands.flatMap fun brand =>
        config.breakpoints.map (Cell.ofBrandBreakpoint brand)) ∧
      (p.withOptions others).colorCells =
        .ok ((config.brands.filter fun brand => brand.colorsFrom.isNone).flatMap fun brand =>
          config.colorModes.map (Cell.ofBrandColorMode brand)) ∧
      ∀ brand ∈ config.brands,
        (p.withOptions others).breakpointCellsOf brand =
          .ok (config.breakpoints.map (Cell.ofBrandBreakpoint brand)) ∧
        (p.withOptions others).densityCellsOf brand =
          .ok (config.breakpoints.flatMap fun breakpoint =>
            config.densities.map (Cell.ofDensity brand breakpoint)) := by
  obtain ⟨valid, -, rfl, -⟩ := create_eq_ok_iff.mp created
  have valid : (p.withOptions others).config.Valid := valid
  refine ⟨exists_tokens_eq_ok _, ?_, breakpointCells_eq valid, colorCells_eq valid, ?_⟩
  · intro e hfailed
    exact exists_violations_of_run_eq_error hfailed
  · intro brand hbrand
    exact ⟨breakpointCellsOf_eq valid hbrand, densityCellsOf_eq valid hbrand⟩

end Pipeline

/-! ## A configuration with an heir -/

namespace Sample

/-- Two brands of which one takes over the colors of the other; all axes have modes. -/
def themed : Pipeline where
  graph := graph
  config :=
    { brands := [{ name := "core" }, { name := "heir", colorsFrom := some "core" }]
      breakpoints := [⟨"small", ⟨"sm"⟩⟩, ⟨"large", ⟨"lg"⟩⟩]
      colorModes := [⟨"light", ⟨"day"⟩⟩, ⟨"dark", ⟨"night"⟩⟩]
      densities := [⟨"cozy", ⟨"c"⟩⟩] }
  options := {}

theorem cells_of_themed :
    Pipeline.create source themed.config {} = .ok themed ∧
      themed.colorCells = .ok [
        ⟨.ofBrandColorMode "core" "light", { brandName := some "core", colorMode := some ⟨"day"⟩ }⟩,
        ⟨.ofBrandColorMode "core" "dark",
          { brandName := some "core", colorMode := some ⟨"night"⟩ }⟩] ∧
      ∃ violations, violations ≠ [] ∧
        (themed.withOptions { policy := .strict }).run = .error (.policy violations) := by
  have hcreated : Pipeline.create source themed.config {} = .ok themed :=
    Pipeline.create_eq_ok_iff.mpr
      ⟨Configuration.validate_eq_ok_iff.mp (by decide +kernel), ofExport_source, rfl, rfl⟩
  obtain ⟨-, -, -, hcolored, -⟩ := Pipeline.cells_of_create hcreated {}
  obtain ⟨-, hfailures, -⟩ := Pipeline.cells_of_create hcreated { policy := .strict }
  have hfails : (themed.withOptions { policy := .strict }).run.isOk = false := by decide +kernel
  refine ⟨hcreated, hcolored, ?_⟩
  cases hrun : (themed.withOptions { policy := .strict }).run with
  | ok output =>
      rw [hrun] at hfails
      cases hfails
  | error e =>
      obtain ⟨violations, hviolations, rfl⟩ := hfailures e hrun
      exact ⟨violations, hviolations, rfl⟩

end Sample

end DesignTokens
