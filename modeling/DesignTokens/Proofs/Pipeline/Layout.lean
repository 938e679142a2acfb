import DesignTokens.Pipeline.Run
import DesignTokens.Proofs.Graph.Construction
import DesignTokens.Proofs.Pipeline.Cells
import DesignTokens.Proofs.Pipeline.Sorting
import DesignTokens.Proofs.Ratio.Attachment

/-!
# What a run builds

`IsLaidOut` says what is in a token set before it has ratios: the files of the primitives and of
each cell, the typography of each cell of brand and breakpoint, the effects of each cell of color
mode.  `exists_isLaidOut` takes a successful run apart into such a token set and the ratios for it.

Every token comes from a variable and every composite from a style, in the context of the key of its
cell (`IsLaidOut.exists_context_of_mem_files`, `IsLaidOut.exists_context_of_mem_typography`).
-/

namespace DesignTokens

namespace Pipeline

variable {p : Pipeline} {sized colored : List Cell} {tokens : TokenSet}

/-! ## The parts of a token set -/

/-- The files of all primitive collections. -/
def primitiveFiles (p : Pipeline) : List TokenFile :=
  (p.graph.collections.filter fun collection => collection.kind == .primitive).map
    fun collection => (p.primitiveFile collection).value

/-- A token set without ratios that is laid out in the cells of a pipeline. -/
structure IsLaidOut (p : Pipeline) (sized colored : List Cell) (tokens : TokenSet) : Prop where
  sized_lays : p.Lays p.config.breakpointKeys sized
  colored_lays : p.Lays p.config.colorKeys colored
  files_eq : tokens.files = p.primitiveFiles ++
    sized.flatMap (fun cell => (p.filesIn p.isDimension cell).value) ++
      colored.flatMap (fun cell => (p.filesIn p.isColor cell).value)
  typography_eq : tokens.typography = sized.flatMap fun cell => (p.typographyIn cell).value
  effects_eq : tokens.effects = colored.flatMap fun cell => (p.effectsIn cell).value

theorem tokenFiles_eq_ok {files : Logged (List TokenFile)} (h : p.tokenFiles = .ok files) :
    ∃ sized colored, p.breakpointCells = .ok sized ∧ p.colorCells = .ok colored ∧
      files.value = p.primitiveFiles ++
        sized.flatMap (fun cell => (p.filesIn p.isDimension cell).value) ++
          colored.flatMap (fun cell => (p.filesIn p.isColor cell).value) := by
  obtain ⟨sized, colored, hsized, hcolored, rfl⟩ := exists_cells_of_tokenFiles h
  refine ⟨sized, colored, hsized, hcolored, ?_⟩
  simp [primitiveFiles, List.flatMap_def]

theorem typography_eq_ok {composites : Logged (List TypographyToken)}
    (h : p.typography = .ok composites) : ∃ sized, p.breakpointCells = .ok sized ∧
      composites.value = sized.flatMap fun cell => (p.typographyIn cell).value := by
  unfold Pipeline.typography at h
  obtain ⟨sized, hsized, h⟩ := Except.bind_eq_ok_iff.mp h
  obtain rfl := Except.pure_eq_ok_iff.mp h
  refine ⟨sized, hsized, ?_⟩
  simp [List.flatMap_def, Functor.map]

theorem effects_eq_ok {composites : Logged (List EffectToken)} (h : p.effects = .ok composites) :
    ∃ colored, p.colorCells = .ok colored ∧
      composites.value = colored.flatMap fun cell => (p.effectsIn cell).value := by
  unfold Pipeline.effects at h
  obtain ⟨colored, hcolored, h⟩ := Except.bind_eq_ok_iff.mp h
  obtain rfl := Except.pure_eq_ok_iff.mp h
  refine ⟨colored, hcolored, ?_⟩
  simp [List.flatMap_def, Functor.map]

theorem isLaidOut_of_tokens {logged : Logged TokenSet} (h : p.tokens = .ok logged) :
    ∃ sized colored, p.IsLaidOut sized colored logged.value := by
  unfold Pipeline.tokens at h
  obtain ⟨files, hfiles, h⟩ := Except.bind_eq_ok_iff.mp h
  obtain ⟨typography, htypography, h⟩ := Except.bind_eq_ok_iff.mp h
  obtain ⟨effects, heffects, h⟩ := Except.bind_eq_ok_iff.mp h
  obtain ⟨density, -, h⟩ := Except.bind_eq_ok_iff.mp h
  obtain rfl := Except.pure_eq_ok_iff.mp h
  obtain ⟨sized, colored, hsized, hcolored, hfiles⟩ := tokenFiles_eq_ok hfiles
  obtain ⟨sized', hsized', htypography⟩ := typography_eq_ok htypography
  obtain ⟨colored', hcolored', heffects⟩ := effects_eq_ok heffects
  -- files and composites go over the same cells
  obtain rfl := Except.ok_unique hsized hsized'
  obtain rfl := Except.ok_unique hcolored hcolored'
  exact ⟨sized, colored, lays_breakpointCells hsized, lays_colorCells hcolored, hfiles,
    htypography, heffects⟩

/-! ## Runs -/

theorem create_eq_ok_iff {source : Export} {config : Configuration} {options : Options} :
    create source config options = .ok p ↔ config.Valid ∧
      Graph.ofExport source config.collections = .ok p.graph ∧ p.config = config ∧
        p.options = options := by
  rw [create, Except.check_bind_eq_ok_iff, Except.mapError_eq_ok_iff,
    Configuration.validate_eq_ok_iff, Except.bind_eq_ok_iff]
  simp only [Except.mapError_eq_ok_iff, Except.pure_eq_ok_iff]
  constructor
  · rintro ⟨valid, graph, hgraph, rfl⟩
    exact ⟨valid, hgraph, rfl, rfl⟩
  · rintro ⟨valid, hgraph, rfl, rfl⟩
    exact ⟨valid, p.graph, hgraph, rfl⟩

/-- A successful run lays out a token set, attaches the ratios and hands over the report on them. -/
theorem exists_isLaidOut {output : Output} (h : p.run = .ok output) :
    ∃ sized colored tokens, p.IsLaidOut sized colored tokens ∧
      output.tokens = { tokens with
        files := tokens.files.map (tokens.attached p.options.ratios) } ∧
      output.ratios = .sum (tokens.ratioCells.map fun key =>
        (Ratio.reportCell tokens p.options.ratios key).value) := by
  unfold run at h
  obtain ⟨logged, hlogged, h⟩ := Except.bind_eq_ok_iff.mp h
  obtain ⟨-, h⟩ := Except.check_bind_eq_ok_iff.mp h
  obtain rfl := Except.pure_eq_ok_iff.mp h
  obtain ⟨built, hbuilt, houtcome⟩ :=
    Except.bind_eq_ok_iff.mp (Except.mapError_eq_ok_iff.mp hlogged)
  obtain rfl := Except.pure_eq_ok_iff.mp houtcome
  obtain ⟨sized, colored, hlaid⟩ := isLaidOut_of_tokens hbuilt
  have hattach := built.value.value_attachRatios p.options.ratios
  exact ⟨sized, colored, built.value, hlaid, congrArg Prod.fst hattach, congrArg Prod.snd hattach⟩

/-! ## Where tokens and composites come from -/

theorem forall_mem_filesIn {select : Variable → Bool} {cell : Cell} :
    ∀ file ∈ (p.filesIn select cell).value, file.key = cell.key ∧
      ∀ token ∈ file.tokens, ∃ v ∈ p.graph.nodes, token = (p.token cell.context v).value := by
  intro file hfile
  rw [value_filesIn] at hfile
  obtain ⟨hkey, htokens⟩ := TokenFile.mem_of_mem_sortByScope hfile
  refine ⟨hkey, ?_⟩
  intro token htoken
  obtain ⟨v, hv, heq⟩ := List.mem_map.mp (htokens token htoken)
  exact ⟨v, (List.mem_filter.mp hv).1, (congrArg Prod.snd heq).symm⟩

/-- The files of cells have the keys of the cells. -/
theorem Lays.key_mem_of_mem_filesIn {keys : List CellKey} {cells : List Cell}
    (lays : p.Lays keys cells) {select : Variable → Bool} {file : TokenFile}
    (h : file ∈ cells.flatMap fun cell => (p.filesIn select cell).value) : file.key ∈ keys := by
  obtain ⟨cell, hcell, hfile⟩ := List.mem_flatMap.mp h
  rw [(forall_mem_filesIn file hfile).1]
  exact lays.mem_keys hcell

theorem forall_mem_primitiveFiles : ∀ file ∈ p.primitiveFiles, file.key = {} ∧
    ∀ token ∈ file.tokens, ∃ v ∈ p.graph.nodes, token = (p.token .unspecified v).value := by
  intro file hfile
  obtain ⟨collection, -, rfl⟩ := List.mem_map.mp hfile
  refine ⟨rfl, ?_⟩
  intro token htoken
  simp only [primitiveFile, Logged.value_bind, Logged.value_forList, Logged.value_pure,
    List.mem_map] at htoken
  obtain ⟨v, hv, rfl⟩ := htoken
  exact ⟨v, (List.mem_filter.mp hv).1, rfl⟩

/-- The empty key has the open context. -/
theorem context_empty (config : Configuration) : config.context {} = .ok .unspecified := rfl

/-- Each file has tokens of variables, all in the context of its key. -/
theorem IsLaidOut.exists_context_of_mem_files (laid : p.IsLaidOut sized colored tokens)
    {file : TokenFile} (hfile : file ∈ tokens.files) :
    ∃ context, p.config.context file.key = .ok context ∧
      ∀ token ∈ file.tokens, ∃ v ∈ p.graph.nodes, token = (p.token context v).value := by
  rw [laid.files_eq, List.mem_append, List.mem_append] at hfile
  -- the file of a primitive collection, of brand and breakpoint, or of a color mode
  rcases hfile with (hfile | hfile) | hfile
  · obtain ⟨hkey, htokens⟩ := forall_mem_primitiveFiles file hfile
    exact ⟨.unspecified, by rw [hkey, context_empty], htokens⟩
  · obtain ⟨cell, hcell, hfile⟩ := List.mem_flatMap.mp hfile
    obtain ⟨hkey, htokens⟩ := forall_mem_filesIn file hfile
    exact ⟨cell.context, by rw [hkey, laid.sized_lays.context_eq cell hcell], htokens⟩
  · obtain ⟨cell, hcell, hfile⟩ := List.mem_flatMap.mp hfile
    obtain ⟨hkey, htokens⟩ := forall_mem_filesIn file hfile
    exact ⟨cell.context, by rw [hkey, laid.colored_lays.context_eq cell hcell], htokens⟩

/-- Each typography token is one of a text style in the context of its key. -/
theorem IsLaidOut.exists_context_of_mem_typography (laid : p.IsLaidOut sized colored tokens)
    {composite : TypographyToken} (hcomposite : composite ∈ tokens.typography) :
    ∃ context, p.config.context composite.key = .ok context ∧
      ∃ style ∈ p.graph.textStyles,
        composite.typography = (p.typographyOf context style).value := by
  rw [laid.typography_eq] at hcomposite
  obtain ⟨cell, hcell, hmem⟩ := List.mem_flatMap.mp hcomposite
  rw [typographyIn, Logged.value_forList, List.mem_map] at hmem
  obtain ⟨style, hstyle, rfl⟩ := hmem
  exact ⟨cell.context, laid.sized_lays.context_eq cell hcell, style, hstyle, rfl⟩

end Pipeline

/-! ## A small run -/

namespace Sample

def leading : Variable :=
  ⟨⟨"leading"⟩, "Size/24", sizes.id, .float,
    Table.empty.insert ⟨"value"⟩ (.literal (.number 24))⟩

def bodyLineHeight : Variable :=
  ⟨⟨"bodyLineHeight"⟩, "Text/bodyLineHeight", breakpoints.id, .float,
    Table.empty.insert ⟨"sm"⟩ (.alias leading.id)⟩

/-- A line height that is an alias of itself. -/
def noteLineHeight : Variable :=
  ⟨⟨"noteLineHeight"⟩, "Text/noteLineHeight", breakpoints.id, .float,
    Table.empty.insert ⟨"sm"⟩ (.alias ⟨"noteLineHeight"⟩)⟩

def bodyStyle : TextStyle where
  id := "body"
  name := "Body"
  fontSize := some 16
  bindings := { lineHeight := some leading.id }

/-- The binding of the line height comes to nothing, so the literal counts. -/
def noteStyle : TextStyle where
  id := "note"
  name := "Note"
  fontSize := some 10
  lineHeight := some ⟨.pixels, some 24⟩
  bindings := { lineHeight := some noteLineHeight.id }

def typesettingSource : Export where
  collections := [sizes, breakpoints].map fun c => ⟨c.id, c.name, c.modes⟩
  nodes := [leading, bodyLineHeight, noteLineHeight]
  textStyles := [bodyStyle, noteStyle]

def typesetting : Pipeline where
  graph :=
    { collectionIndex := .ofList [sizes, breakpoints]
      nodeIndex := .ofList [leading, bodyLineHeight, noteLineHeight]
      textStyles := [bodyStyle, noteStyle]
      effectStyles := [] }
  config := { brands := [{ name := "core" }], breakpoints := [⟨"small", ⟨"sm"⟩⟩] }
  options := {}

theorem create_typesetting :
    Pipeline.create typesettingSource typesetting.config {} = .ok typesetting :=
  Pipeline.create_eq_ok_iff.mpr
    ⟨Configuration.validate_eq_ok_iff.mp (by decide +kernel), by decide +kernel, rfl, rfl⟩

def typeset : Output := typesetting.run.toOption.getD {}

theorem run_typesetting : typesetting.run = .ok typeset :=
  Except.eq_ok_of_isOk (by decide)

end Sample

end DesignTokens
