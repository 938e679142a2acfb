import DesignTokens.Proofs.Graph.DensityReach
import DesignTokens.Proofs.Graph.Grounded
import DesignTokens.Proofs.Pipeline.DeclaredCells

/-!
# The rows of the density matrix

The matrix has one row for each brand and each dimension of the breakpoint layer whose chain reaches
the density layer at some breakpoint (`value_densityMatrix`).  The chain is probed with the density
left open, while the cells of the row are resolved with a density each.

That makes no difference if up to the density layer nothing else asks for a density: so far the
chain is the same.  A collection may however be declared to be semantic and to vary by density.  A
chain that comes through one may go on to the density layer at one density and past it at another,
and a probe sees but one of these ways (`Sample.densityMatrix_misses_space`).
-/

namespace DesignTokens

private theorem Logged.value_anyOf {α : Type} (items : List α) (test : α → Logged Bool) :
    (anyOf items test).value = items.any fun item => (test item).value := by
  induction items with
  | nil => rfl
  | cons item rest ih =>
      rw [anyOf, value_bind, List.any_cons, ← ih]
      cases (test item).value with
      | true => rfl
      | false => rfl

namespace Pipeline

/-! ## Rows -/

/-- The row of a brand and a variable, with a cell for each breakpoint and each density. -/
def densityRow (p : Pipeline) (brand : Brand) (v : Variable) : DensityToken where
  brand := brand.name
  path := v.path
  id := v.id
  cells := p.config.breakpoints.flatMap fun breakpoint => p.config.densities.map fun density =>
    let cell := Cell.ofDensity brand breakpoint density
    { key := cell.key
      value := (p.graph.value cell.context v.id).value
      endpoint := (p.graph.endpoint cell.context (p.stops p.options.tokens) v.id).value }

/-- Whether the chain of a variable reaches the density layer at some breakpoint of a brand, where
the density is left open. -/
def isProbed (p : Pipeline) (brand : Brand) (v : Variable) : Bool :=
  p.config.breakpoints.any fun breakpoint =>
    (p.graph.reachesDensity (Cell.ofBrandBreakpoint brand breakpoint).context v.id).value

variable {p : Pipeline} {brand : Brand} {v : Variable}

private theorem value_densityToken? :
    (p.densityToken? brand (p.config.cellsOf brand) (p.config.densityCellsOf brand) v).value =
      if p.isProbed brand v then some (p.densityRow brand v) else none := by
  have hprobed : (Logged.anyOf (p.config.cellsOf brand)
      fun cell => p.graph.reachesDensity cell.context v.id).value = p.isProbed brand v := by
    rw [Logged.value_anyOf, Configuration.cellsOf, List.any_map]
    rfl
  rw [densityToken?, Logged.value_bind, hprobed]
  split
  · simp only [Logged.value_bind, Logged.value_forList, Logged.value_pure, densityRow, densityCell,
      Configuration.densityCellsOf, List.map_flatMap, List.map_map, Function.comp_def]
  · rfl

private theorem value_densityRows :
    (p.densityRows brand (p.config.cellsOf brand) (p.config.densityCellsOf brand)).value =
      ((p.graph.nodes.filter p.isBreakpointDimension).filter (p.isProbed brand)).map
        (p.densityRow brand) := by
  simp only [densityRows, Logged.value_bind, Logged.value_forList, Logged.value_pure,
    value_densityToken?]
  rw [List.filterMap_map, ← List.filterMap_eq_map]
  exact List.filterMap_filter.symm

/-- The rows in order: brand by brand, the variables in the order of declaration. -/
theorem value_densityMatrix (valid : p.config.Valid) :
    ∃ rows, p.densityMatrix = .ok rows ∧ rows.value =
      if p.config.densities = [] then [] else p.config.brands.flatMap fun brand =>
        ((p.graph.nodes.filter p.isBreakpointDimension).filter (p.isProbed brand)).map
          (p.densityRow brand) := by
  refine ⟨_, densityMatrix_eq valid, ?_⟩
  simp only [List.isEmpty_iff]
  split
  · rfl
  · rw [List.flatMap_def]
    simp only [Functor.map, Function.comp_apply, Logged.value_forList, value_densityRows]

section

variable {source : Export} {config : Configuration} {options : Options}
  (created : create source config options = .ok p)

include created

/-- A brand and a variable have at most one row. -/
theorem nodup_rows {rows : Logged (List DensityToken)} (h : p.densityMatrix = .ok rows) :
    (rows.value.map fun row => (row.brand, row.id)).Nodup := by
  obtain ⟨valid, built, rfl, -⟩ := create_eq_ok_iff.mp created
  obtain ⟨rows', hrows', hvalue⟩ := value_densityMatrix valid
  obtain rfl := Except.ok_unique h hrows'
  rw [hvalue]
  split
  · exact .nil
  · simp only [List.map_flatMap, List.map_map, Function.comp_def, densityRow]
    rw [List.nodup_flatMap]
    constructor
    · intro brand _
      have hids : (((p.graph.nodes.filter p.isBreakpointDimension).filter
          (p.isProbed brand)).map Variable.id).Nodup :=
        (Graph.nodup_ids _).sublist
          ((List.filter_sublist.trans List.filter_sublist).map _)
      refine List.pairwise_map.mpr ((List.pairwise_map.mp hids).imp ?_)
      intro v w hne heq
      exact hne (congrArg Prod.snd heq)
    · refine (List.pairwise_map.mp valid.names_nodup).imp ?_
      intro brand other hne
      simp only [Function.onFun, List.disjoint_left, List.mem_map]
      rintro pair ⟨v, -, rfl⟩ ⟨w, -, heq⟩
      exact hne (congrArg Prod.fst heq).symm

theorem mem_rows_iff {rows : Logged (List DensityToken)} (h : p.densityMatrix = .ok rows)
    {row : DensityToken} :
    row ∈ rows.value ↔ config.densities ≠ [] ∧ ∃ brand ∈ config.brands, ∃ v ∈ p.graph.nodes,
      p.isBreakpointDimension v ∧ p.isProbed brand v ∧ row = p.densityRow brand v := by
  obtain ⟨valid, built, rfl, -⟩ := create_eq_ok_iff.mp created
  obtain ⟨rows', hrows', hvalue⟩ := value_densityMatrix valid
  obtain rfl := Except.ok_unique h hrows'
  rw [hvalue]
  split
  · next hempty => simp [hempty]
  · next hdensities =>
    simp only [List.mem_flatMap, List.mem_map, List.mem_filter]
    constructor
    · rintro ⟨brand, hbrand, v, ⟨⟨hv, hdimension⟩, hprobed⟩, rfl⟩
      exact ⟨hdensities, brand, hbrand, v, hv, hdimension, hprobed, rfl⟩
    · rintro ⟨-, brand, hbrand, v, hv, hdimension, hprobed, rfl⟩
      exact ⟨brand, hbrand, v, ⟨⟨hv, hdimension⟩, hprobed⟩, rfl⟩

/-- A brand and a variable have a row exactly if the variable is probed with success. -/
theorem exists_row_iff {rows : Logged (List DensityToken)} (h : p.densityMatrix = .ok rows)
    (hbrand : brand ∈ config.brands) (hv : v ∈ p.graph.nodes)
    (hdimension : p.isBreakpointDimension v) :
    (∃ row ∈ rows.value, row.brand = brand.name ∧ row.id = v.id) ↔
      config.densities ≠ [] ∧ p.isProbed brand v := by
  constructor
  · rintro ⟨row, hrow, hname, hid⟩
    obtain ⟨hdensities, other, hother, w, hw, -, hprobed, rfl⟩ := (mem_rows_iff created h).mp hrow
    obtain ⟨valid, built, rfl, -⟩ := create_eq_ok_iff.mp created
    obtain rfl := List.inj_on_of_nodup_map valid.names_nodup hother hbrand hname
    obtain rfl := List.inj_on_of_nodup_map (Graph.nodup_ids _) hw hv hid
    exact ⟨hdensities, hprobed⟩
  · rintro ⟨hdensities, hprobed⟩
    exact ⟨_, (mem_rows_iff created h).mpr
      ⟨hdensities, brand, hbrand, v, hv, hdimension, hprobed, rfl⟩, rfl, rfl⟩

private theorem isProbed_iff (hv : v ∈ p.graph.nodes) :
    p.isProbed brand v ↔ ∃ breakpoint ∈ config.breakpoints,
      p.graph.RunsThroughDensity (Cell.ofBrandBreakpoint brand breakpoint).context v.id := by
  obtain ⟨-, built, rfl, -⟩ := create_eq_ok_iff.mp created
  simp only [isProbed, List.any_eq_true,
    Graph.reachesDensity_iff (Graph.find?_id hv)]

/-- A steady chain runs through the density layer at all densities or at none. -/
theorem runsThroughDensity_ofDensity (hv : v ∈ p.graph.nodes)
    (hupper : p.graph.isUpper v.id) {breakpoint density : AxisMode}
    (hsteady : p.graph.IsSteady (Cell.ofBrandBreakpoint brand breakpoint).context v.id) :
    p.graph.RunsThroughDensity (Cell.ofDensity brand breakpoint density).context v.id ↔
      p.graph.RunsThroughDensity (Cell.ofBrandBreakpoint brand breakpoint).context v.id := by
  obtain ⟨-, built, -, -⟩ := create_eq_ok_iff.mp created
  have found := Graph.find?_id hv
  have hsame : p.graph.reachesDensity (Cell.ofDensity brand breakpoint density).context v.id =
      p.graph.reachesDensity (Cell.ofBrandBreakpoint brand breakpoint).context v.id :=
    Graph.reachesDensity_withDensity found hupper hsteady
  rw [← Graph.reachesDensity_iff found, ← Graph.reachesDensity_iff found, hsame]

end

/-- **The rows of the density matrix.**  The matrix has rows for brands and for dimensions of the
breakpoint layer only, at most one for each brand and variable.  A row has one cell for each
breakpoint and density in the order of the configuration, with what resolving and looking for an
endpoint give in its context.

There is a row exactly if there are densities and at some breakpoint the chain of the variable, the
density left open, runs through the density layer.  If these chains are steady, which they are
unless on the way there they come through a collection that is declared to be semantic and to vary
by density, this is the same as to run through it in some cell.  To run through the density layer is
what `Graph.reachesDensity` asks for. -/
theorem densityMatrix_of_create {source : Export} {config : Configuration} {options : Options}
    (created : create source config options = .ok p) :
    ∃ rows, p.densityMatrix = .ok rows ∧
      (rows.value.map fun row => (row.brand, row.id)).Nodup ∧
      (∀ row ∈ rows.value, ∃ brand ∈ config.brands, ∃ v ∈ p.graph.nodes,
        p.graph.kind? v = some (.semantic .breakpoint) ∧ v.type ≠ .color ∧
          row = p.densityRow brand v) ∧
      ∀ brand ∈ config.brands, ∀ v ∈ p.graph.nodes,
        p.graph.kind? v = some (.semantic .breakpoint) → v.type ≠ .color →
        ((∃ row ∈ rows.value, row.brand = brand.name ∧ row.id = v.id) ↔
          config.densities ≠ [] ∧ ∃ breakpoint ∈ config.breakpoints,
            p.graph.RunsThroughDensity (Cell.ofBrandBreakpoint brand breakpoint).context v.id) ∧
        ((∀ breakpoint ∈ config.breakpoints,
            p.graph.IsSteady (Cell.ofBrandBreakpoint brand breakpoint).context v.id) →
          ((∃ row ∈ rows.value, row.brand = brand.name ∧ row.id = v.id) ↔
            ∃ breakpoint ∈ config.breakpoints, ∃ density ∈ config.densities,
              p.graph.RunsThroughDensity (Cell.ofDensity brand breakpoint density).context v.id)) ∧
        ∀ context, (p.graph.reachesDensity context v.id).value = true ↔
          p.graph.RunsThroughDensity context v.id := by
  obtain ⟨valid, built, -, -⟩ := create_eq_ok_iff.mp created
  obtain ⟨rows, hrows⟩ := p.exists_densityMatrix_eq_ok
  refine ⟨rows, hrows, nodup_rows created hrows, ?_, ?_⟩
  · intro row hrow
    obtain ⟨-, brand, hbrand, v, hv, hdimension, -, rfl⟩ := (mem_rows_iff created hrows).mp hrow
    have hboth : p.graph.kind? v = some (.semantic .breakpoint) ∧ v.type ≠ .color := by
      simpa [isBreakpointDimension] using hdimension
    exact ⟨brand, hbrand, v, hv, hboth.1, hboth.2, rfl⟩
  · intro brand hbrand v hv hkind htype
    have hdimension : p.isBreakpointDimension v := by simp [isBreakpointDimension, hkind, htype]
    have hrow := exists_row_iff created hrows hbrand hv hdimension
    rw [isProbed_iff created hv] at hrow
    refine ⟨hrow, fun hsteady => ?_, fun context =>
      Graph.reachesDensity_iff (Graph.find?_id hv)⟩
    have hupper : p.graph.isUpper v.id :=
      (Graph.isUpper_iff (Graph.find?_id hv)).mpr (by simp [hkind])
    -- a steady chain goes the same way in all cells, so the probe speaks for them
    rw [hrow]
    constructor
    · rintro ⟨hdensities, breakpoint, hbreakpoint, hruns⟩
      obtain ⟨density, hdensity⟩ := List.exists_mem_of_ne_nil _ hdensities
      exact ⟨breakpoint, hbreakpoint, density, hdensity,
        (runsThroughDensity_ofDensity created hv hupper (hsteady _ hbreakpoint)).mpr hruns⟩
    · rintro ⟨breakpoint, hbreakpoint, density, hdensity, hruns⟩
      exact ⟨List.ne_nil_of_mem hdensity, breakpoint, hbreakpoint,
        (runsThroughDensity_ofDensity created hv hupper (hsteady _ hbreakpoint)).mp hruns⟩

end Pipeline

/-! ## Two collections that vary by density -/

namespace Sample

def densityLayer : Collection :=
  ⟨⟨"density"⟩, "Density", .density, [⟨⟨"default"⟩, "Default"⟩, ⟨⟨"dense"⟩, "Dense"⟩]⟩

/-- A collection that a configuration declares to be semantic and to vary by density. -/
def rhythms : Collection :=
  ⟨⟨"rhythm"⟩, "Rhythm", .semantic .density,
    [⟨⟨"regular"⟩, "Regular"⟩, ⟨⟨"tight"⟩, "Tight"⟩]⟩

def gap : Variable :=
  ⟨⟨"gap"⟩, "Density/gap", densityLayer.id, .float,
    (Table.empty.insert ⟨"default"⟩ (.alias sixteen.id)).insert ⟨"dense"⟩ (.literal (.number 8))⟩

/-- In the density layer where the rhythm is tight, and past it where it is regular. -/
def rhythm : Variable :=
  ⟨⟨"rhythm"⟩, "Rhythm/gap", rhythms.id, .float,
    (Table.empty.insert ⟨"regular"⟩ (.alias sixteen.id)).insert ⟨"tight"⟩ (.alias gap.id)⟩

def inset : Variable :=
  ⟨⟨"inset"⟩, "Space/inset", breakpoints.id, .float,
    Table.empty.insert ⟨"sm"⟩ (.alias gap.id)⟩

def space : Variable :=
  ⟨⟨"space"⟩, "Space/gap", breakpoints.id, .float,
    Table.empty.insert ⟨"sm"⟩ (.alias rhythm.id)⟩

/-- In the density layer, with the rhythm behind it. -/
def beat : Variable :=
  ⟨⟨"beat"⟩, "Density/beat", densityLayer.id, .float,
    Table.empty.insert ⟨"default"⟩ (.alias rhythm.id)⟩

def margin : Variable :=
  ⟨⟨"margin"⟩, "Space/margin", breakpoints.id, .float,
    Table.empty.insert ⟨"sm"⟩ (.alias beat.id)⟩

def spacingSource : Export where
  collections := [sizes, densityLayer, rhythms, breakpoints].map fun c => ⟨c.id, c.name, c.modes⟩
  nodes := [sixteen, gap, rhythm, beat, inset, space, margin]

def core : Brand := { name := "core" }

def small : AxisMode := ⟨"small", ⟨"sm"⟩⟩

def tight : AxisMode := ⟨"tight", ⟨"tight"⟩⟩

def dense : AxisMode := ⟨"dense", ⟨"dense"⟩⟩

def spacing : Pipeline where
  graph :=
    ⟨.ofList [sizes, densityLayer, rhythms, breakpoints], .ofList spacingSource.nodes, [], []⟩
  config :=
    { brands := [core]
      breakpoints := [small]
      densities := [tight, dense]
      collections := [⟨"Rhythm", .semantic .density⟩] }
  options := {}

def spacingRows : Logged (List DensityToken) := spacing.densityMatrix.toOption.getD ⟨[], []⟩

theorem create_spacing : Pipeline.create spacingSource spacing.config {} = .ok spacing :=
  Pipeline.create_eq_ok_iff.mpr
    ⟨Configuration.validate_eq_ok_iff.mp (by decide +kernel), by decide +kernel, rfl, rfl⟩

theorem densityMatrix_spacing : spacing.densityMatrix = .ok spacingRows :=
  Except.eq_ok_of_isOk (by decide)

/-- The margin goes straight to the density layer, so it has a row, and its chain runs through that
layer in a cell.  That the rhythm comes behind the layer makes no difference. -/
theorem densityMatrix_of_spacing :
    Pipeline.create spacingSource spacing.config {} = .ok spacing ∧
      spacing.densityMatrix = .ok spacingRows ∧
      rhythm.id ∈
        (spacing.graph.resolve (Cell.ofBrandBreakpoint core small).context margin.id).value.chain ∧
      (∃ row ∈ spacingRows.value, row.brand = "core" ∧ row.id = margin.id) ∧
      ∃ breakpoint ∈ spacing.config.breakpoints, ∃ density ∈ spacing.config.densities,
        spacing.graph.RunsThroughDensity (Cell.ofDensity core breakpoint density).context
          margin.id := by
  obtain ⟨rows, hrows, -, -, hmembers⟩ := Pipeline.densityMatrix_of_create create_spacing
  obtain rfl := Except.ok_unique hrows densityMatrix_spacing
  have hrow : ∃ row ∈ spacingRows.value, row.brand = "core" ∧ row.id = margin.id := by
    decide +kernel
  have hsteady : ∀ breakpoint ∈ spacing.config.breakpoints,
      spacing.graph.IsSteady (Cell.ofBrandBreakpoint core breakpoint).context margin.id := by
    unfold Graph.IsSteady
    decide +kernel
  obtain ⟨-, hcells, -⟩ := hmembers core (by decide) margin (by decide) (by decide) (by decide)
  exact ⟨create_spacing, hrows, by decide +kernel, hrow, (hcells hsteady).mp hrow⟩

/-- Where the rhythm is tight the chain of the space reaches the density layer, but it has no row,
because the rhythm is regular where it is left open. -/
theorem densityMatrix_misses_space :
    Pipeline.create spacingSource spacing.config {} = .ok spacing ∧
      spacing.densityMatrix = .ok spacingRows ∧ space ∈ spacing.graph.nodes ∧
      spacing.graph.kind? space = some (.semantic .breakpoint) ∧ space.type ≠ .color ∧
      ¬ ((∃ row ∈ spacingRows.value, row.brand = core.name ∧ row.id = space.id) ↔
        ∃ breakpoint ∈ spacing.config.breakpoints, ∃ density ∈ spacing.config.densities,
          (spacing.graph.reachesDensity (Cell.ofDensity core breakpoint density).context
            space.id).value = true) := by
  refine ⟨create_spacing, densityMatrix_spacing, by decide, by decide, by decide, ?_⟩
  intro h
  have hmissing : ¬ ∃ row ∈ spacingRows.value, row.brand = core.name ∧ row.id = space.id := by
    decide +kernel
  refine hmissing (h.mpr ⟨small, by decide, tight, by decide, ?_⟩)
  decide +kernel

end Sample

end DesignTokens
