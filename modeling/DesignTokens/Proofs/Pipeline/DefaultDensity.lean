import DesignTokens.Proofs.Graph.OpenAxes
import DesignTokens.Proofs.Pipeline.DensityMatrix
import DesignTokens.Proofs.Pipeline.Isolation
import DesignTokens.Proofs.Pipeline.LookUp
import DesignTokens.Proofs.Ratio.Repetition

/-!
# The density matrix at the default density

A dimension of the breakpoint layer comes to a value twice.  In the files of a cell of brand and
breakpoint its token is resolved with the density left open, and in its row of the density matrix
with each density in turn.  For a density that every collection which chooses by it has for its
first mode, nothing is to be chosen between the two (`Graph.resolve_of_fills`), so the row and the
files agree (`Pipeline.default_density_agrees`).

The two sides are found separately.  In the row it is one cell for each breakpoint and density
(`cell?_densityRow`).  In the files it is one token for each dimension (`HandsOver.tokensOf_perm`),
except for its ratio, which a run may add and the matrix does not have.
-/

namespace DesignTokens

namespace TokenSet

/-- The standalone tokens of a cell, file by file. -/
def tokensOf (tokens : TokenSet) (key : CellKey) : List Token :=
  (tokens.filesOf key).flatMap TokenFile.tokens

theorem tokensOf_withoutRatios (tokens : TokenSet) (key : CellKey) :
    tokens.withoutRatios.tokensOf key = (tokens.tokensOf key).map Token.withoutRatio := by
  rw [tokensOf, Ratio.filesOf_withoutRatios, List.flatMap_map, tokensOf, List.map_flatMap]
  rfl

end TokenSet

/-- The cell of a density has the context of the cell of its breakpoint, with the density filled
in. -/
theorem Cell.fills_ofDensity (brand : Brand) (breakpoint density : AxisMode) :
    (Cell.ofDensity brand breakpoint density).context.Fills
      (Cell.ofBrandBreakpoint brand breakpoint).context .density density.mode where
  brandName_eq := rfl
  isOpen := rfl
  mode?_eq := rfl
  mode?_eq_of_ne := by
    intro other hother
    cases other with
    | density => contradiction
    | brand | breakpoint | colorMode => rfl

namespace Pipeline

variable {p : Pipeline} {tokens : TokenSet} {brand : Brand} {breakpoint density : AxisMode}
  {v : Variable}

/-! ## The cells of a row -/

/-- A row has one cell for each breakpoint and each density. -/
theorem nodup_cells_densityRow (valid : p.config.Valid) :
    ((p.densityRow brand v).cells.map fun cell =>
      (cell.key.breakpoint, cell.key.density)).Nodup := by
  have hsome : ∀ axis, ((p.config.modes axis).map fun mode => some mode.key).Nodup := by
    intro axis
    have hkeys := (valid.keys_nodup axis).map fun _ _ => Option.some.inj
    rwa [List.map_map] at hkeys
  refine nodup_map_pair_flatMap (fun b => some b.key) (hsome .breakpoint) ?_ ?_
  · intro breakpoint _ cell hcell
    obtain ⟨density, -, rfl⟩ := List.mem_map.mp hcell
    rfl
  · intro breakpoint _
    rw [List.map_map]
    exact hsome .density

/-- Each pair of breakpoint and density has its cell. -/
theorem cell?_densityRow (valid : p.config.Valid) (hbreakpoint : breakpoint ∈ p.config.breakpoints)
    (hdensity : density ∈ p.config.densities) :
    (p.densityRow brand v).cell? breakpoint.key density.key =
      some (p.densityCell v (.ofDensity brand breakpoint density)).value := by
  have hcell : (p.densityCell v (.ofDensity brand breakpoint density)).value ∈
      (p.densityRow brand v).cells :=
    List.mem_flatMap.mpr ⟨breakpoint, hbreakpoint, List.mem_map.mpr ⟨density, hdensity, rfl⟩⟩
  exact find?_eq_some_of_nodup (nodup_cells_densityRow valid) hcell

/-! ## The tokens of a cell -/

/-- A run adds nothing but ratios to what is built. -/
theorem HandsOver.exists_built (handed : p.HandsOver tokens) :
    ∃ built, p.tokens = .ok built ∧ tokens.withoutRatios = built.value.withoutRatios := by
  rcases handed with ⟨built, hbuilt, rfl⟩ | ⟨output, ran, rfl⟩
  · exact ⟨built, hbuilt, rfl⟩
  · obtain ⟨built, hbuilt⟩ := p.exists_tokens_eq_ok
    obtain ⟨rfl, -⟩ := (run_eq_ok_iff hbuilt).mp ran
    exact ⟨built, hbuilt, TokenSet.withoutRatios_attachRatios _ _⟩

/-- The matrix that is handed over is the one that was built. -/
theorem HandsOver.exists_densityMatrix (handed : p.HandsOver tokens) :
    ∃ rows, p.densityMatrix = .ok rows ∧ rows.value = tokens.density := by
  obtain ⟨built, hbuilt, hsame⟩ := handed.exists_built
  obtain ⟨_, _, _, rows, -, -, -, hrows, hvalue, -⟩ := tokens_eq_ok hbuilt
  refine ⟨rows, hrows, ?_⟩
  have hdensity : tokens.withoutRatios.density = built.value.withoutRatios.density :=
    congrArg TokenSet.density hsame
  calc rows.value
    _ = built.value.density := by rw [hvalue]
    _ = tokens.density := hdensity.symm

/-- Ratios apart, the files of a cell of brand and breakpoint hold the tokens of the dimensions. -/
theorem HandsOver.tokensOf_perm (handed : p.HandsOver tokens) (valid : p.config.Valid)
    (hbrand : brand ∈ p.config.brands)
    (hbreakpoint : breakpoint ∈ p.config.breakpoints) :
    ((tokens.tokensOf (.ofBrandBreakpoint brand.name breakpoint.key)).map Token.withoutRatio).Perm
      ((p.graph.nodes.filter p.isDimension).map fun v =>
        (p.token (Cell.ofBrandBreakpoint brand breakpoint).context v).value) := by
  let cell := Cell.ofBrandBreakpoint brand breakpoint
  obtain ⟨built, hbuilt, hsame⟩ := handed.exists_built
  obtain ⟨sized, colored, laid⟩ := isLaidOut_of_tokens hbuilt
  obtain ⟨-, hcontext⟩ := cell_eq_ok_iff.mp (cell_ofBrandBreakpoint valid hbrand hbreakpoint)
  have hfiles : built.value.filesOf cell.key = (p.filesIn p.isDimension cell).value :=
    congrArg TokenSet.files (laid.only_sized_eq valid hcontext)
  have hperm : (built.value.tokensOf cell.key).Perm _ :=
    hfiles ▸ (sorts_filesIn p.isDimension cell).tokens_perm
  show ((tokens.tokensOf cell.key).map Token.withoutRatio).Perm _
  rw [← TokenSet.tokensOf_withoutRatios, hsame, TokenSet.tokensOf_withoutRatios]
  refine (hperm.map Token.withoutRatio).trans (.of_eq ?_)
  -- a token that was just built has no ratio
  rw [List.map_map]
  rfl

/-- A dimension has one token in a cell, which resolves it there. -/
theorem HandsOver.exists_token (handed : p.HandsOver tokens) (valid : p.config.Valid)
    (hbrand : brand ∈ p.config.brands)
    (hbreakpoint : breakpoint ∈ p.config.breakpoints) (hv : v ∈ p.graph.nodes)
    (hdimension : p.isDimension v) :
    ∃ token, token.withoutRatio =
        (p.token (Cell.ofBrandBreakpoint brand breakpoint).context v).value ∧
      ∀ other, other ∈ tokens.tokensOf (.ofBrandBreakpoint brand.name breakpoint.key) ∧
        other.id = v.id ↔ other = token := by
  let context := (Cell.ofBrandBreakpoint brand breakpoint).context
  have hperm := handed.tokensOf_perm valid hbrand hbreakpoint
  have hmade : (p.token context v).value ∈
      (p.graph.nodes.filter p.isDimension).map fun v => (p.token context v).value :=
    List.mem_map_of_mem (List.mem_filter.mpr ⟨hv, hdimension⟩)
  obtain ⟨token, htoken, hsame⟩ := List.mem_map.mp (hperm.mem_iff.mpr hmade)
  -- no two variables have one id, so no two tokens do
  have hdistinct :
      ((tokens.tokensOf (.ofBrandBreakpoint brand.name breakpoint.key)).map Token.id).Nodup := by
    have hselected : ((p.graph.nodes.filter p.isDimension).map Variable.id).Nodup :=
      p.graph.nodup_ids.sublist (List.filter_sublist.map _)
    have hnodup := (hperm.map Token.id).nodup_iff.mpr (by rw [List.map_map]; exact hselected)
    rwa [List.map_map] at hnodup
  have hid : token.id = v.id := congrArg Token.id hsame
  refine ⟨token, hsame, fun other => ⟨?_, ?_⟩⟩
  · rintro ⟨hother, hotherId⟩
    exact List.inj_on_of_nodup_map hdistinct hother htoken (hotherId.trans hid.symm)
  · rintro rfl
    exact ⟨htoken, hid⟩

/-- **The density matrix agrees with the files at the default density.**  Take any row of the
matrix, any breakpoint, and a density whose mode is the first one of each collection that chooses by
density.  The row has a cell for the two, the files of the row's brand at the breakpoint have
exactly one token of the row's variable, and both have the same value and the same endpoint. -/
theorem default_density_agrees {source : Export} {config : Configuration} {options : Options}
    (created : create source config options = .ok p) :
    (∃ tokens, p.HandsOver tokens) ∧ ∀ tokens, p.HandsOver tokens → ∀ row ∈ tokens.density,
      ∀ breakpoint ∈ config.breakpoints, ∀ density ∈ config.densities,
        p.graph.IsDefault .density density.mode →
        ∃ cell token, row.cell? breakpoint.key density.key = some cell ∧
          (∀ other, other ∈ tokens.tokensOf (.ofBrandBreakpoint row.brand breakpoint.key) ∧
            other.id = row.id ↔ other = token) ∧
          cell.value = token.value ∧ cell.endpoint = token.endpoint := by
  obtain ⟨valid, built, rfl, -⟩ := create_eq_ok_iff.mp created
  obtain ⟨made, hmade⟩ := p.exists_tokens_eq_ok
  refine ⟨⟨_, .inl ⟨made, hmade, rfl⟩⟩, ?_⟩
  intro tokens handed row hrow breakpoint hbreakpoint density hdensity hdefault
  obtain ⟨rows, hrows, hvalue⟩ := handed.exists_densityMatrix
  rw [← hvalue] at hrow
  obtain ⟨-, brand, hbrand, v, hv, hbreakpointDimension, -, rfl⟩ :=
    (mem_rows_iff created hrows).mp hrow
  have hdimension : p.isDimension v := by
    have hboth : p.graph.kind? v = some (.semantic .breakpoint) ∧ v.type ≠ .color := by
      simpa [isBreakpointDimension] using hbreakpointDimension
    exact isDimension_iff.mpr ⟨hboth.2, .inl hboth.1⟩
  obtain ⟨token, hsame, honly⟩ :=
    handed.exists_token valid hbrand hbreakpoint hv hdimension
  -- the context of the cell is that of the token, with the density filled in
  have fills := Cell.fills_ofDensity brand breakpoint density
  refine ⟨_, token, cell?_densityRow valid hbreakpoint hdensity, honly, ?_, ?_⟩
  · calc (p.graph.value (Cell.ofDensity brand breakpoint density).context v.id).value
      _ = (p.graph.value (Cell.ofBrandBreakpoint brand breakpoint).context v.id).value := by
        rw [Graph.value_of_fills fills hdefault]
      _ = token.value := (congrArg Token.value hsame).symm
  · calc (p.graph.endpoint (Cell.ofDensity brand breakpoint density).context
          (p.stops p.options.tokens) v.id).value
      _ = (p.graph.endpoint (Cell.ofBrandBreakpoint brand breakpoint).context
          (p.stops p.options.tokens) v.id).value := by
        rw [Graph.endpoint_of_fills fills hdefault]
      _ = token.endpoint := (congrArg Token.endpoint hsame).symm

end Pipeline

namespace Sample

def regular : AxisMode := ⟨"regular", ⟨"default"⟩⟩

def spacedSource : Export where
  collections := [sizes, densityLayer, breakpoints].map fun c => ⟨c.id, c.name, c.modes⟩
  nodes := [sixteen, gap, inset]

/-- A gap and an inset that takes it over, at two densities. -/
def spaced : Pipeline where
  graph := ⟨.ofList [sizes, densityLayer, breakpoints], .ofList spacedSource.nodes, [], []⟩
  config := { brands := [core], breakpoints := [small], densities := [regular, dense] }
  options := {}

def spacedOutput : Output := spaced.run.toOption.getD {}

/-- At the regular density the inset has the value of its token, with the gap for its endpoint; at
the other density it has another value. -/
theorem default_density_of_spaced :
    Pipeline.create spacedSource spaced.config {} = .ok spaced ∧
      spaced.HandsOver spacedOutput.tokens ∧
      spaced.graph.IsDefault .density regular.mode ∧
      ∃ row ∈ spacedOutput.tokens.density, row.id = inset.id ∧
        (∃ cell token, row.cell? "small" "regular" = some cell ∧
          token ∈ spacedOutput.tokens.tokensOf (.ofBrandBreakpoint "core" "small") ∧
          token.id = inset.id ∧ cell.value = token.value ∧ cell.endpoint = token.endpoint ∧
          cell.value = .float 16 ∧ cell.endpoint.map Endpoint.id = some gap.id) ∧
        (row.cell? "small" "dense").map DensityCell.value = some (.float 8) := by
  have hcreated : Pipeline.create spacedSource spaced.config {} = .ok spaced :=
    Pipeline.create_eq_ok_iff.mpr
      ⟨Configuration.validate_eq_ok_iff.mp (by decide +kernel), by decide +kernel, rfl, rfl⟩
  have handed : spaced.HandsOver spacedOutput.tokens :=
    .inr ⟨spacedOutput, Except.eq_ok_of_isOk (by decide +kernel), rfl⟩
  have hdefault : spaced.graph.IsDefault .density regular.mode := by decide +kernel
  have hrow : ∃ row ∈ spacedOutput.tokens.density, row.id = inset.id ∧ row.brand = "core" ∧
      (∀ cell ∈ row.cell? "small" "regular",
        cell.value = .float 16 ∧ cell.endpoint.map Endpoint.id = some gap.id) ∧
      (row.cell? "small" "dense").map DensityCell.value = some (.float 8) := by
    decide +kernel
  obtain ⟨row, hmem, hid, hbrand, hregular, hdense⟩ := hrow
  obtain ⟨-, hagrees⟩ := Pipeline.default_density_agrees hcreated
  obtain ⟨cell, token, hcell, honly, hvalue, hendpoint⟩ :=
    hagrees _ handed row hmem small (by decide) regular (by decide) hdefault
  obtain ⟨htoken, htokenId⟩ := (honly token).mpr rfl
  rw [hbrand] at htoken
  obtain ⟨hsixteen, hgap⟩ := hregular cell hcell
  exact ⟨hcreated, handed, hdefault, row, hmem, hid, ⟨cell, token, hcell, htoken,
    htokenId.trans hid, hvalue, hendpoint, hsixteen, hgap⟩, hdense⟩

end Sample

end DesignTokens
