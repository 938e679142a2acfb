import DesignTokens.Proofs.Diagnostics
import DesignTokens.Proofs.Pipeline.Layout

/-!
# Building never fails

The cells of a pipeline have keys that its configuration lists, so each of them has a context, and
there is a token set whatever is in the graph (`exists_tokens_eq_ok`).  `tokens_eq_ok` takes one
apart again into its categories.

So a run comes down to one question: whether there are findings that the policy does not allow
(`run_eq_ok_iff`).
-/

namespace DesignTokens

namespace Pipeline

variable {p : Pipeline}

/-! ## Cells -/

theorem exists_cells_eq_ok {keys : List CellKey} (listed : ∀ key ∈ keys, p.config.Lists key) :
    ∃ cells, keys.mapM p.cell = .ok cells := by
  refine Except.exists_mapM_eq_ok ?_
  intro key hkey
  obtain ⟨context, hcontext⟩ := Configuration.exists_context_iff.mpr (listed key hkey)
  exact ⟨⟨key, context⟩, cell_eq_ok_iff.mpr ⟨rfl, hcontext⟩⟩

theorem lists_ofBrandBreakpoint {brand : Brand} {breakpoint : AxisMode}
    (hbrand : brand ∈ p.config.brands) (hbreakpoint : breakpoint ∈ p.config.breakpoints) :
    p.config.Lists (.ofBrandBreakpoint brand.name breakpoint.key) where
  brand := Configuration.exists_brand_of_mem hbrand
  breakpoint := by
    rintro key ⟨⟩
    exact ⟨breakpoint, hbreakpoint, rfl⟩
  colorMode := by rintro key ⟨⟩
  density := by rintro key ⟨⟩

theorem exists_breakpointCells_eq_ok (p : Pipeline) : ∃ cells, p.breakpointCells = .ok cells := by
  refine exists_cells_eq_ok ?_
  intro key hkey
  obtain ⟨brand, hbrand, breakpoint, hbreakpoint, rfl⟩ :=
    Configuration.mem_breakpointKeys_iff.mp hkey
  exact lists_ofBrandBreakpoint hbrand hbreakpoint

theorem exists_colorCells_eq_ok (p : Pipeline) : ∃ cells, p.colorCells = .ok cells := by
  refine exists_cells_eq_ok ?_
  intro key hkey
  obtain ⟨brand, hbrand, colorMode, hcolorMode, rfl⟩ := Configuration.mem_colorKeys_iff.mp hkey
  refine ⟨Configuration.exists_brand_of_mem (List.mem_filter.mp hbrand).1, by rintro key ⟨⟩, ?_,
    by rintro key ⟨⟩⟩
  rintro key ⟨⟩
  exact ⟨colorMode, hcolorMode, rfl⟩

private theorem exists_breakpointCellsOf_eq_ok {brand : Brand} (hbrand : brand ∈ p.config.brands) :
    ∃ cells, p.breakpointCellsOf brand = .ok cells := by
  refine exists_cells_eq_ok ?_
  intro key hkey
  obtain ⟨breakpoint, hbreakpoint, rfl⟩ := List.mem_map.mp hkey
  exact lists_ofBrandBreakpoint hbrand hbreakpoint

private theorem exists_densityCellsOf_eq_ok {brand : Brand} (hbrand : brand ∈ p.config.brands) :
    ∃ cells, p.densityCellsOf brand = .ok cells := by
  refine exists_cells_eq_ok ?_
  intro key hkey
  obtain ⟨breakpoint, hbreakpoint, hkey⟩ := List.mem_flatMap.mp hkey
  obtain ⟨density, hdensity, rfl⟩ := List.mem_map.mp hkey
  refine { lists_ofBrandBreakpoint hbrand hbreakpoint with density := ?_ }
  rintro key ⟨⟩
  exact ⟨density, hdensity, rfl⟩

/-! ## Categories -/

theorem exists_tokenFiles_eq_ok (p : Pipeline) : ∃ files, p.tokenFiles = .ok files := by
  obtain ⟨sized, hsized⟩ := p.exists_breakpointCells_eq_ok
  obtain ⟨colored, hcolored⟩ := p.exists_colorCells_eq_ok
  exact ⟨_, by rw [tokenFiles, hsized, hcolored]; rfl⟩

private theorem exists_typography_eq_ok (p : Pipeline) :
    ∃ composites, p.typography = .ok composites := by
  obtain ⟨sized, hsized⟩ := p.exists_breakpointCells_eq_ok
  exact ⟨_, by rw [typography, hsized]; rfl⟩

private theorem exists_effects_eq_ok (p : Pipeline) : ∃ composites, p.effects = .ok composites := by
  obtain ⟨colored, hcolored⟩ := p.exists_colorCells_eq_ok
  exact ⟨_, by rw [effects, hcolored]; rfl⟩

theorem exists_densityMatrix_eq_ok (p : Pipeline) : ∃ rows, p.densityMatrix = .ok rows := by
  unfold densityMatrix
  split
  · exact ⟨_, rfl⟩
  · have hcells : ∀ brand ∈ p.config.brands, ∃ entry, (do
        return (brand, ← p.breakpointCellsOf brand, ← p.densityCellsOf brand)) =
          (.ok entry : Except ConfigurationProblem (Brand × List Cell × List Cell)) := by
      intro brand hbrand
      obtain ⟨probes, hprobes⟩ := exists_breakpointCellsOf_eq_ok hbrand
      obtain ⟨cells, hcells⟩ := exists_densityCellsOf_eq_ok hbrand
      exact ⟨(brand, probes, cells), by rw [hprobes, hcells]; rfl⟩
    obtain ⟨brands, hbrands⟩ := Except.exists_mapM_eq_ok hcells
    exact ⟨_, by rw [hbrands]; rfl⟩

/-! ## Token sets -/

/-- There is a token set, whatever is in the graph. -/
theorem exists_tokens_eq_ok (p : Pipeline) : ∃ built, p.tokens = .ok built := by
  obtain ⟨files, hfiles⟩ := p.exists_tokenFiles_eq_ok
  obtain ⟨typography, htypography⟩ := p.exists_typography_eq_ok
  obtain ⟨effects, heffects⟩ := p.exists_effects_eq_ok
  obtain ⟨density, hdensity⟩ := p.exists_densityMatrix_eq_ok
  exact ⟨_, by rw [tokens, hfiles, htypography, heffects, hdensity]; rfl⟩

/-- A token set has what was built for each category, and the findings of all of them. -/
theorem tokens_eq_ok {built : Logged TokenSet} (h : p.tokens = .ok built) :
    ∃ files typography effects density, p.tokenFiles = .ok files ∧
      p.typography = .ok typography ∧ p.effects = .ok effects ∧ p.densityMatrix = .ok density ∧
        built.value = ⟨files.value, typography.value, effects.value, density.value,
          p.paletteInheritance⟩ ∧
        built.findings =
          files.findings ++ (typography.findings ++ (effects.findings ++ density.findings)) := by
  unfold tokens at h
  obtain ⟨files, hfiles, h⟩ := Except.bind_eq_ok_iff.mp h
  obtain ⟨typography, htypography, h⟩ := Except.bind_eq_ok_iff.mp h
  obtain ⟨effects, heffects, h⟩ := Except.bind_eq_ok_iff.mp h
  obtain ⟨density, hdensity, h⟩ := Except.bind_eq_ok_iff.mp h
  obtain rfl := Except.pure_eq_ok_iff.mp h
  exact ⟨files, typography, effects, density, hfiles, htypography, heffects, hdensity, rfl,
    by simp⟩

end Pipeline

/-! ## Runs -/

/-- The output that is made from a token set, with all findings. -/
def Output.ofTokens (options : RatioOptions) (built : Logged TokenSet) : Logged Output :=
  let complete := built >>= fun tokens => tokens.attachRatios options
  let (tokens, report) := complete.value
  ⟨⟨tokens, report,
      .of (Diagnostics.pushAll {} complete.findings) report.assigned report.unmatched⟩,
    complete.findings⟩

namespace Pipeline

variable {p : Pipeline} {built : Logged TokenSet}

theorem outcome_eq_ok (h : p.tokens = .ok built) :
    p.outcome = .ok (Output.ofTokens p.options.ratios built) := by
  rw [outcome, h]
  rfl

/-- Once the tokens are built, the policy alone decides about a run. -/
theorem run_eq (h : p.tokens = .ok built) : p.run = do
    (Output.ofTokens p.options.ratios built).value.summary.enforce p.options.policy
    return (Output.ofTokens p.options.ratios built).value := by
  rw [run, outcome_eq_ok h]
  rfl

/-- A run hands over what it built unless there are findings that the policy does not allow. -/
theorem run_eq_ok_iff (h : p.tokens = .ok built) {output : Output} :
    p.run = .ok output ↔ output = (Output.ofTokens p.options.ratios built).value ∧
      ∀ finding ∈ (Output.ofTokens p.options.ratios built).findings,
        finding.kind ∉ p.options.policy.fatal := by
  have henforce : (Output.ofTokens p.options.ratios built).value.summary.enforce
      p.options.policy = .ok () ↔ _ := Summary.enforce_of_pushAll_eq_ok_iff
  rw [run_eq h, Except.check_bind_eq_ok_iff, Except.pure_eq_ok_iff, henforce, and_comm, eq_comm]
  rfl

/-- A run that fails was held against a policy that does not allow what it found. -/
theorem exists_violations_of_run_eq_error {e : Error} (h : p.run = .error e) :
    ∃ violations, violations ≠ [] ∧ e = .policy violations := by
  obtain ⟨built, hbuilt⟩ := p.exists_tokens_eq_ok
  rw [run_eq hbuilt, Summary.enforce] at h
  split at h
  · cases h
  · next hviolations =>
    cases h
    exact ⟨_, mt List.isEmpty_iff.mpr hviolations, rfl⟩

end Pipeline

end DesignTokens
