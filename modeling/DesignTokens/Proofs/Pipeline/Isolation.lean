import DesignTokens.Proofs.Pipeline.Layout
import DesignTokens.Proofs.Ratio.Report

/-!
# Cells do not influence each other

All cells share one list of files, one report and one pass that attaches the ratios.  Still, what an
output says about a cell (`CellPart`) does not depend on the other cells.  The proof goes through
the places that they share.

* The cells sort their tokens into one list of files, each from its own place on.  It comes to the
  same as if each had a list to itself (`tokenFiles_eq`), and so the files of a cell are made from
  the graph, the options and the context of the cell (`IsLaidOut.only_sized_eq`,
  `IsLaidOut.only_colored_eq`).
* The pass that attaches ratios meets the files of a cell after it has changed those of others.  It
  comes to the same as if each cell were the only one (`TokenSet.attachRatios_eq`), and so the part
  of a cell is the same if everything else is taken out of the token set before
  (`TokenSet.part_only`).
* The report is put together from reports on the cells, each of which is about its own cell only
  (`filter_flatMap_reports`).

Two runs that agree on the graph, the options and the context of a cell agree on its part.
-/

namespace DesignTokens

/-- What is said about one cell. -/
structure CellPart where
  files : List TokenFile
  typography : List TypographyToken
  effects : List EffectToken
  conflicts : List RatioConflict
  unmatched : List UnmatchedToken

/-- The part of a cell in a token set and a report. -/
def CellPart.of (tokens : TokenSet) (report : RatioReport) (key : CellKey) : CellPart where
  files := tokens.filesOf key
  typography := tokens.compositesOf key
  effects := tokens.effects.filter fun token => token.key == key
  conflicts := report.conflicts.filter fun conflict => conflict.key == key
  unmatched := report.unmatched.filter fun token => token.key == key

def Output.part (output : Output) (key : CellKey) : CellPart := .of output.tokens output.ratios key

/-- The part of a cell after ratios are attached. -/
def TokenSet.part (tokens : TokenSet) (options : RatioOptions) (key : CellKey) : CellPart :=
  .of (tokens.attachRatios options).value.1 (tokens.attachRatios options).value.2 key

/-! ## Attaching ratios looks at one cell at a time -/

namespace TokenSet

/-- Only the tokens of one cell. -/
def only (tokens : TokenSet) (key : CellKey) : TokenSet where
  files := tokens.filesOf key
  typography := tokens.compositesOf key
  effects := tokens.effects.filter fun token => token.key == key

variable {tokens : TokenSet} {options : RatioOptions} {key : CellKey}

@[simp] theorem filesOf_only : (tokens.only key).filesOf key = tokens.filesOf key := by
  simp [only, filesOf]

@[simp] theorem compositesOf_only :
    (tokens.only key).compositesOf key = tokens.compositesOf key := by
  simp [only, compositesOf]

@[simp] theorem only_only : (tokens.only key).only key = tokens.only key := by
  simp [only, filesOf, compositesOf]

private theorem mem_ratioCells_only :
    key ∈ (tokens.only key).ratioCells ↔ key ∈ tokens.ratioCells := by
  simp [mem_ratioCells_iff, only, filesOf, compositesOf]

private theorem reportCell_only :
    Ratio.reportCell (tokens.only key) options key = Ratio.reportCell tokens options key := by
  ext1
  · simp [Ratio.value_reportCell, RatioIndex.ofCell]
  · simp [Ratio.findings_reportCell, RatioIndex.ofCell]

private theorem attached_only {file : TokenFile} (hkey : file.key = key) :
    (tokens.only key).attached options file = tokens.attached options file := by
  simp [attached, RatioIndex.ofCell, hkey]

/-- The files of a cell have ratios that come from the cell alone. -/
theorem filter_map_attached (tokens : TokenSet) (options : RatioOptions) (key : CellKey) :
    (tokens.files.map (tokens.attached options)).filter (fun file => file.key == key) =
      (tokens.filesOf key).map ((tokens.only key).attached options) := by
  rw [List.filter_map]
  have hkept : (fun file : TokenFile => file.key == key) ∘ tokens.attached options =
      fun file => file.key == key := by
    funext file
    simp
  rw [hkept]
  refine List.map_congr_left ?_
  intro file hfile
  exact (attached_only (by simpa using (List.mem_filter.mp hfile).2)).symm

/-- Of the reports on all cells, what is about a cell is from the report on that cell. -/
theorem filter_flatMap_reports {α : Type} {list : RatioReport → List α} {itemKey : α → CellKey}
    (hown : ∀ {tokens options key item}, item ∈ list (Ratio.reportCell tokens options key).value →
      itemKey item = key) :
    (tokens.ratioCells.flatMap fun key => list (Ratio.reportCell tokens options key).value).filter
        (fun item => itemKey item == key) =
      if key ∈ tokens.ratioCells then list (Ratio.reportCell tokens options key).value else [] := by
  have hnamed : ∀ cell ∈ tokens.ratioCells,
      ∀ item ∈ list (Ratio.reportCell tokens options cell).value, itemKey item = id cell :=
    fun cell _ item hitem => hown hitem
  have hdistinct : (tokens.ratioCells.map id).Nodup := by
    rw [List.map_id]
    exact tokens.nodup_ratioCells
  split
  · next hkey => exact filter_flatMap_eq hdistinct hnamed hkey
  · next hkey => exact filter_flatMap_eq_nil hnamed (by simpa using hkey)

theorem filter_flatMap_reports_only {α : Type} {list : RatioReport → List α}
    {itemKey : α → CellKey}
    (hown : ∀ {tokens options key item}, item ∈ list (Ratio.reportCell tokens options key).value →
      itemKey item = key) :
    ((tokens.only key).ratioCells.flatMap fun cell =>
        list (Ratio.reportCell (tokens.only key) options cell).value).filter
          (fun item => itemKey item == key) =
      (tokens.ratioCells.flatMap fun cell =>
        list (Ratio.reportCell tokens options cell).value).filter
          (fun item => itemKey item == key) := by
  rw [filter_flatMap_reports hown, filter_flatMap_reports hown, reportCell_only]
  simp only [mem_ratioCells_only]

/-- Taking everything else out of a token set changes nothing about a cell. -/
theorem part_only (tokens : TokenSet) (options : RatioOptions) (key : CellKey) :
    (tokens.only key).part options key = tokens.part options key := by
  simp only [part, value_attachRatios, CellPart.of, RatioReport.conflicts_sum,
    RatioReport.unmatched_sum, List.flatMap_map, CellPart.mk.injEq]
  refine ⟨?_, ?_, ?_, ?_, ?_⟩
  · show ((tokens.only key).files.map _).filter _ = (tokens.files.map _).filter _
    rw [filter_map_attached, filter_map_attached, filesOf_only, only_only]
  · exact compositesOf_only
  · simp [only]
  · exact filter_flatMap_reports_only Ratio.key_of_mem_conflicts_reportCell
  · exact filter_flatMap_reports_only Ratio.key_of_mem_unmatched_reportCell

end TokenSet

/-! ## What a cell is made from -/

/-- A brand is listed and takes its colors from no other one. -/
def Configuration.OwnsPalette (config : Configuration) (name : String) : Prop :=
  ∃ brand, config.brand? name = some brand ∧ brand.hasPalette

namespace Pipeline

variable {p : Pipeline} {sized colored : List Cell} {tokens : TokenSet} {brand key : String}
  {context : Context}

/-- The tokens of a cell of brand and breakpoint. -/
def sizedTokens (p : Pipeline) (cell : Cell) : TokenSet where
  files := (p.filesIn p.isDimension cell).value
  typography := (p.typographyIn cell).value

/-- The tokens of a cell of brand and color mode. -/
def coloredTokens (p : Pipeline) (cell : Cell) : TokenSet where
  files := (p.filesIn p.isColor cell).value
  effects := (p.effectsIn cell).value

/-- The tokens of a cell are made without a look at the configuration. -/
theorem sizedTokens_withConfig (p : Pipeline) (config : Configuration) (cell : Cell) :
    sizedTokens { p with config } cell = p.sizedTokens cell :=
  rfl

private theorem coloredTokens_withConfig (p : Pipeline) (config : Configuration) (cell : Cell) :
    coloredTokens { p with config } cell = p.coloredTokens cell :=
  rfl

theorem key_of_mem_filesIn {select : Variable → Bool} {cell : Cell} {file : TokenFile}
    (h : file ∈ (p.filesIn select cell).value) : file.key = cell.key :=
  (forall_mem_filesIn file h).1

theorem key_of_mem_typographyIn {cell : Cell} {composite : TypographyToken}
    (h : composite ∈ (p.typographyIn cell).value) : composite.key = cell.key := by
  rw [typographyIn, Logged.value_forList, List.mem_map] at h
  obtain ⟨style, -, rfl⟩ := h
  rfl

theorem key_of_mem_effectsIn {cell : Cell} {composite : EffectToken}
    (h : composite ∈ (p.effectsIn cell).value) : composite.key = cell.key := by
  rw [effectsIn, Logged.value_forList, List.mem_map] at h
  obtain ⟨style, -, rfl⟩ := h
  rfl

/-- The primitives belong to no cell. -/
theorem filter_primitiveFiles {key : CellKey} (hbrand : key.brand.isSome) :
    p.primitiveFiles.filter (fun file => file.key == key) = [] := by
  rw [List.filter_eq_nil_iff]
  intro file hfile
  rw [(forall_mem_primitiveFiles file hfile).1, beq_iff_eq]
  rintro rfl
  cases hbrand

theorem IsLaidOut.only_sized_eq (laid : p.IsLaidOut sized colored tokens) (valid : p.config.Valid)
    (hcontext : p.config.context (.ofBrandBreakpoint brand key) = .ok context) :
    tokens.only (.ofBrandBreakpoint brand key) =
      p.sizedTokens ⟨.ofBrandBreakpoint brand key, context⟩ := by
  have hkey := Configuration.ofBrandBreakpoint_mem_breakpointKeys hcontext
  have hdistinct := valid.breakpointKeys_nodup
  have hother : CellKey.ofBrandBreakpoint brand key ∉ p.config.colorKeys :=
    Configuration.ofBrandBreakpoint_not_mem_colorKeys
  -- the primitives have no brand, and the cells of the colors have other keys
  unfold TokenSet.only TokenSet.filesOf TokenSet.compositesOf sizedTokens
  rw [laid.files_eq, laid.typography_eq, laid.effects_eq, List.filter_append, List.filter_append,
    filter_primitiveFiles rfl,
    laid.sized_lays.filter_flatMap_eq hdistinct (fun _ _ _ => key_of_mem_filesIn) hkey hcontext,
    laid.sized_lays.filter_flatMap_eq hdistinct (fun _ _ _ => key_of_mem_typographyIn) hkey
      hcontext,
    laid.colored_lays.filter_flatMap_eq_nil (fun _ _ _ => key_of_mem_filesIn) hother,
    laid.colored_lays.filter_flatMap_eq_nil (fun _ _ _ => key_of_mem_effectsIn) hother,
    List.nil_append, List.append_nil]

theorem IsLaidOut.only_colored_eq (laid : p.IsLaidOut sized colored tokens)
    (valid : p.config.Valid) (hpalette : p.config.OwnsPalette brand)
    (hcontext : p.config.context (.ofBrandColorMode brand key) = .ok context) :
    tokens.only (.ofBrandColorMode brand key) =
      p.coloredTokens ⟨.ofBrandColorMode brand key, context⟩ := by
  obtain ⟨owner, howner, hpalette⟩ := hpalette
  have hkey := Configuration.ofBrandColorMode_mem_colorKeys howner hpalette hcontext
  have hdistinct := valid.colorKeys_nodup
  have hother : CellKey.ofBrandColorMode brand key ∉ p.config.breakpointKeys :=
    Configuration.ofBrandColorMode_not_mem_breakpointKeys
  unfold TokenSet.only TokenSet.filesOf TokenSet.compositesOf coloredTokens
  rw [laid.files_eq, laid.typography_eq, laid.effects_eq, List.filter_append, List.filter_append,
    filter_primitiveFiles rfl,
    laid.sized_lays.filter_flatMap_eq_nil (fun _ _ _ => key_of_mem_filesIn) hother,
    laid.sized_lays.filter_flatMap_eq_nil (fun _ _ _ => key_of_mem_typographyIn) hother,
    laid.colored_lays.filter_flatMap_eq hdistinct (fun _ _ _ => key_of_mem_filesIn) hkey hcontext,
    laid.colored_lays.filter_flatMap_eq hdistinct (fun _ _ _ => key_of_mem_effectsIn) hkey hcontext,
    List.nil_append, List.nil_append]

/-! ## Runs -/

theorem exists_part_eq {output : Output} (ran : p.run = .ok output) :
    ∃ sized colored tokens, p.IsLaidOut sized colored tokens ∧
      ∀ key, output.part key = tokens.part p.options.ratios key := by
  obtain ⟨sized, colored, tokens, laid, htokens, hratios⟩ := exists_isLaidOut ran
  refine ⟨sized, colored, tokens, laid, ?_⟩
  intro key
  rw [Output.part, TokenSet.part, TokenSet.value_attachRatios, htokens, hratios]

/-- A run says about a cell what the tokens of the cell say by themselves. -/
theorem part_eq_sized {output : Output} (valid : p.config.Valid) (ran : p.run = .ok output)
    (hcontext : p.config.context (.ofBrandBreakpoint brand key) = .ok context) :
    output.part (.ofBrandBreakpoint brand key) =
      (p.sizedTokens ⟨.ofBrandBreakpoint brand key, context⟩).part p.options.ratios
        (.ofBrandBreakpoint brand key) := by
  obtain ⟨sized, colored, tokens, laid, hpart⟩ := exists_part_eq ran
  rw [hpart, ← TokenSet.part_only, laid.only_sized_eq valid hcontext]

theorem part_eq_colored {output : Output} (valid : p.config.Valid) (ran : p.run = .ok output)
    (hpalette : p.config.OwnsPalette brand)
    (hcontext : p.config.context (.ofBrandColorMode brand key) = .ok context) :
    output.part (.ofBrandColorMode brand key) =
      (p.coloredTokens ⟨.ofBrandColorMode brand key, context⟩).part p.options.ratios
        (.ofBrandColorMode brand key) := by
  obtain ⟨sized, colored, tokens, laid, hpart⟩ := exists_part_eq ran
  rw [hpart, ← TokenSet.part_only, laid.only_colored_eq valid hpalette hcontext]

/-- Two pipelines for one export differ in their configurations only. -/
theorem eq_withConfig_of_create {source : Export} {options : Options}
    {config₁ config₂ : Configuration} {p₁ p₂ : Pipeline}
    (created₁ : create source config₁ options = .ok p₁)
    (created₂ : create source config₂ options = .ok p₂)
    (hkinds : config₁.collections = config₂.collections) :
    p₁ = { p₂ with config := config₁ } := by
  obtain ⟨-, hgraph₁, hconfig₁, hoptions₁⟩ := create_eq_ok_iff.mp created₁
  obtain ⟨-, hgraph₂, -, hoptions₂⟩ := create_eq_ok_iff.mp created₂
  rw [hkinds] at hgraph₁
  have hgraph := Except.ok_unique hgraph₁ hgraph₂
  obtain ⟨graph, config, _⟩ := p₁
  rw [Pipeline.mk.injEq]
  exact ⟨hgraph, hconfig₁, hoptions₁.trans hoptions₂.symm⟩

/-- **Cells do not influence each other.**  Two runs on one export with the same options and the
same kinds of collections say the same about each cell that their configurations give the same
context: its files with the ratios in them, its composites, its disputes and its unmatched line
heights.  Whatever else the configurations list, and in which order, does not matter. -/
theorem part_eq_of_context_eq {source : Export} {options : Options}
    {config₁ config₂ : Configuration} {p₁ p₂ : Pipeline} {output₁ output₂ : Output} {key : CellKey}
    {context : Context} (created₁ : create source config₁ options = .ok p₁)
    (created₂ : create source config₂ options = .ok p₂)
    (hkinds : config₁.collections = config₂.collections) (ran₁ : p₁.run = .ok output₁)
    (ran₂ : p₂.run = .ok output₂)
    (hkey : (∃ brand breakpoint, key = .ofBrandBreakpoint brand breakpoint) ∨
      ∃ brand colorMode, key = .ofBrandColorMode brand colorMode ∧
        config₁.OwnsPalette brand ∧ config₂.OwnsPalette brand)
    (hcontext₁ : config₁.context key = .ok context)
    (hcontext₂ : config₂.context key = .ok context) : output₁.part key = output₂.part key := by
  have hsame := eq_withConfig_of_create created₁ created₂ hkinds
  obtain ⟨valid₁, -, rfl, -⟩ := create_eq_ok_iff.mp created₁
  obtain ⟨valid₂, -, rfl, -⟩ := create_eq_ok_iff.mp created₂
  rcases hkey with ⟨brand, breakpoint, rfl⟩ | ⟨brand, colorMode, rfl, hpalette₁, hpalette₂⟩
  · rw [part_eq_sized valid₁ ran₁ hcontext₁, part_eq_sized valid₂ ran₂ hcontext₂, hsame,
      sizedTokens_withConfig]
  · rw [part_eq_colored valid₁ ran₁ hpalette₁ hcontext₁,
      part_eq_colored valid₂ ran₂ hpalette₂ hcontext₂, hsame, coloredTokens_withConfig]

end Pipeline

namespace Sample

/-- The small pipeline with another brand, another breakpoint and a color mode. -/
def crowded : Pipeline :=
  { typesetting with
    config :=
      { brands := [⟨"guest", some "core"⟩, ⟨"core", none⟩]
        breakpoints := [⟨"large", ⟨"lg"⟩⟩, ⟨"small", ⟨"sm"⟩⟩]
        colorModes := [⟨"dark", ⟨"dark"⟩⟩] } }

def crowdedOutput : Output := crowded.run.toOption.getD {}

/-- The other brand and the other breakpoint leave the cell of `core` and `small` as it is, the line
height without a ratio included. -/
theorem part_core_small_eq :
    typesetting.run = .ok typeset ∧ crowded.run = .ok crowdedOutput ∧
      typeset.tokens ≠ crowdedOutput.tokens ∧
      typeset.part (.ofBrandBreakpoint "core" "small") =
        crowdedOutput.part (.ofBrandBreakpoint "core" "small") ∧
      (crowdedOutput.part (.ofBrandBreakpoint "core" "small")).unmatched =
        [⟨.ofBrandBreakpoint "core" "small", "semantic", "Text/noteLineHeight"⟩] := by
  have hcreated : Pipeline.create typesettingSource crowded.config {} = .ok crowded :=
    Pipeline.create_eq_ok_iff.mpr
      ⟨Configuration.validate_eq_ok_iff.mp (by decide +kernel), by decide +kernel, rfl, rfl⟩
  have hran : crowded.run = .ok crowdedOutput := Except.eq_ok_of_isOk (by decide +kernel)
  have hcontext₁ : typesetting.config.context (.ofBrandBreakpoint "core" "small") =
      .ok { brandName := some "core", breakpoint := some ⟨"sm"⟩ } := by decide +kernel
  have hcontext₂ : crowded.config.context (.ofBrandBreakpoint "core" "small") =
      .ok { brandName := some "core", breakpoint := some ⟨"sm"⟩ } := by decide +kernel
  have hpart := Pipeline.part_eq_of_context_eq create_typesetting hcreated rfl run_typesetting hran
    (.inl ⟨"core", "small", rfl⟩) hcontext₁ hcontext₂
  exact ⟨run_typesetting, hran, by decide +kernel, hpart, by decide +kernel⟩

end Sample

end DesignTokens
