import DesignTokens.Proofs.Pipeline.DeclaredCells

/-!
# Token files lose and duplicate nothing

The files come in three groups: one for each primitive collection, then those of each cell of brand
and breakpoint, then those of each cell of brand and color mode (`tokenFiles_of_create`).

All cells sort into one list, and each finds the files of the others in it.  That these stay as they
are, and that a cell gets files of its own for scopes that others have as well, is `tokenFiles_eq`.

What the files of one cell have to do with the variables that are selected there is the structure
`Sorts`.  It follows from the closed form of sorting: the files are named by the scopes that occur,
and each is the selection cut down to its scope.  To cut a list down to one scope after the other is
to reorder it, so each variable comes once, as it does in the export.
-/

namespace DesignTokens

namespace Pipeline

variable {p : Pipeline} {cell : Cell} {selected : List Variable} {files : List TokenFile}

/-! ## The files of a cell -/

/-- The files of a cell hold the tokens of the selected variables, sorted by scope. -/
structure Sorts (p : Pipeline) (cell : Cell) (selected : List Variable)
    (files : List TokenFile) : Prop where
  key_eq : ∀ file ∈ files, file.key = cell.key
  /-- The scopes come in the order in which they first occur. -/
  scopes_eq : files.map TokenFile.scope = (selected.map fun v => p.scope v.path).eraseDups
  scopes_nodup : (files.map TokenFile.scope).Nodup
  nonempty : ∀ file ∈ files, file.tokens ≠ []
  /-- A file holds what has its scope, in the order of the variables. -/
  tokens_eq : ∀ file ∈ files, file.tokens =
    (selected.filter fun v => p.scope v.path == file.scope).map fun v =>
      (p.token cell.context v).value
  /-- Each variable has its token in the file of its scope. -/
  placed : ∀ v ∈ selected, ∃ file ∈ files, file.scope = p.scope v.path ∧
    (p.token cell.context v).value ∈ file.tokens
  /-- The files together hold the tokens of the variables and no others. -/
  tokens_perm : (files.flatMap TokenFile.tokens).Perm
    (selected.map fun v => (p.token cell.context v).value)
  /-- No variable has two tokens. -/
  ids_nodup : ((files.flatMap TokenFile.tokens).map Token.id).Nodup

/-- The file of the variables with a scope. -/
def fileOf (p : Pipeline) (cell : Cell) (selected : List Variable) (scope : String) :
    TokenFile where
  key := cell.key
  scope
  tokens := (selected.filter fun v => p.scope v.path == scope).map fun v =>
    (p.token cell.context v).value

private theorem filesIn_eq (p : Pipeline) (select : Variable → Bool) (cell : Cell) :
    (p.filesIn select cell).value =
      ((p.graph.nodes.filter select).map fun v => p.scope v.path).eraseDups.map
        (p.fileOf cell (p.graph.nodes.filter select)) := by
  rw [value_filesIn, TokenFile.sortByScope_eq, List.map_map]
  refine List.map_congr_left fun scope _ => ?_
  simp only [TokenFile.ofScope, fileOf, List.filter_map, List.map_map]
  rfl

/-- One file for each scope that occurs is the selection in another order. -/
theorem flatMap_tokens_fileOf_perm (p : Pipeline) (cell : Cell) (selected : List Variable) :
    (((selected.map fun v => p.scope v.path).eraseDups.map (p.fileOf cell selected)).flatMap
      TokenFile.tokens).Perm (selected.map fun v => (p.token cell.context v).value) := by
  let scopes := (selected.map fun v => p.scope v.path).eraseDups
  have hscopes : ∀ v ∈ selected, p.scope v.path ∈ scopes := by
    intro v hv
    rw [List.mem_eraseDups]
    exact List.mem_map_of_mem hv
  have hall : (selected.filter fun v => p.scope v.path ∈ scopes) = selected := by
    rw [List.filter_eq_self]
    intro v hv
    exact decide_eq_true (hscopes v hv)
  have hperm := flatMap_filter_perm (fun v => p.scope v.path) selected
    (nodup_eraseDups (selected.map fun v => p.scope v.path))
  rw [hall] at hperm
  rw [List.flatMap_map]
  simpa only [fileOf, List.map_flatMap] using hperm.map fun v => (p.token cell.context v).value

/-- The files of a cell sort the variables that are selected. -/
theorem sorts_filesIn (select : Variable → Bool) (cell : Cell) :
    p.Sorts cell (p.graph.nodes.filter select) (p.filesIn select cell).value := by
  rw [filesIn_eq]
  let selected := p.graph.nodes.filter select
  let scopes := (selected.map fun v => p.scope v.path).eraseDups
  have hscopes : (scopes.map (p.fileOf cell selected)).map TokenFile.scope = scopes := by
    rw [List.map_map]
    exact List.map_id scopes
  have hperm := p.flatMap_tokens_fileOf_perm cell selected
  constructor
  case key_eq =>
    intro file hfile
    obtain ⟨scope, -, rfl⟩ := List.mem_map.mp hfile
    rfl
  case scopes_eq => exact hscopes
  case scopes_nodup =>
    rw [hscopes]
    exact nodup_eraseDups _
  case nonempty =>
    intro file hfile
    obtain ⟨scope, hscope, rfl⟩ := List.mem_map.mp hfile
    -- the scope is that of some variable, and this one has a token in the file
    obtain ⟨v, hv, rfl⟩ := List.mem_map.mp (List.mem_eraseDups.mp hscope)
    have hkept : v ∈ selected.filter fun w => p.scope w.path == p.scope v.path :=
      List.mem_filter.mpr ⟨hv, beq_self_eq_true _⟩
    exact List.ne_nil_of_mem (List.mem_map_of_mem hkept)
  case tokens_eq =>
    intro file hfile
    obtain ⟨scope, -, rfl⟩ := List.mem_map.mp hfile
    rfl
  case placed =>
    intro v hv
    have hscope : p.scope v.path ∈ scopes := List.mem_eraseDups.mpr (List.mem_map_of_mem hv)
    refine ⟨p.fileOf cell selected (p.scope v.path), List.mem_map_of_mem hscope, rfl, ?_⟩
    exact List.mem_map_of_mem (List.mem_filter.mpr ⟨hv, beq_self_eq_true _⟩)
  case tokens_perm => exact hperm
  case ids_nodup =>
    have hids : (selected.map Variable.id).Nodup :=
      p.graph.nodup_ids.sublist (List.filter_sublist.map _)
    rw [(hperm.map Token.id).nodup_iff, List.map_map]
    exact hids

theorem sorts_filesIn_of_iff {select : Variable → Bool} {P : Variable → Prop} [DecidablePred P]
    (hselect : ∀ v, select v ↔ P v)
    (cell : Cell) :
    p.Sorts cell (p.graph.nodes.filter fun v => P v) (p.filesIn select cell).value := by
  have hselected : p.graph.nodes.filter select = p.graph.nodes.filter fun v => P v :=
    List.filter_congr fun v _ => Bool.eq_iff_iff.mpr ((hselect v).trans decide_eq_true_iff.symm)
  exact hselected ▸ sorts_filesIn select cell

/-! ## All files -/

/-- The variables that have tokens in the cells of brand and breakpoint: those of the breakpoint
layer and of the components that are no colors. -/
theorem isDimension_iff {v : Variable} : p.isDimension v ↔ v.type ≠ .color ∧
    (p.graph.kind? v = some (.semantic .breakpoint) ∨ p.graph.kind? v = some .component) := by
  unfold isDimension
  split <;> simp_all

/-- The variables that have tokens in the cells of brand and color mode: the colors of the color
mode layer and of the components. -/
theorem isColor_iff {v : Variable} : p.isColor v ↔ v.type = .color ∧
    (p.graph.kind? v = some (.semantic .colorMode) ∨ p.graph.kind? v = some .component) := by
  unfold isColor
  split <;> simp_all

private theorem primitiveFiles_eq (p : Pipeline) : p.primitiveFiles =
    (p.graph.collections.filter fun c => c.kind == .primitive).map fun c =>
      { key := {}
        scope := c.name
        tokens := (p.graph.nodes.filter fun v => v.collection == c.id).map fun v =>
          (p.token .unspecified v).value } := by
  simp only [primitiveFiles, primitiveFile, Logged.value_bind, Logged.value_forList,
    Logged.value_pure, Graph.variablesIn]

/-- **Token files lose and duplicate nothing.**  First comes a file for each primitive collection,
in order of declaration, with exactly the tokens of its variables in their order.  Then come the
files of each cell of brand and breakpoint and of each cell of color mode and brand with a palette,
in the order of the configuration, and in each cell they sort the variables that belong there. -/
theorem tokenFiles_of_create {source : Export} {config : Configuration} {options : Options}
    (created : create source config options = .ok p) :
    ∃ (files : Logged (List TokenFile)) (sized colored : Cell → List TokenFile),
      p.tokenFiles = .ok files ∧
      files.value =
        ((source.collections.map (Graph.collectionOf config.collections)).filter
          fun c => c.kind == .primitive).map (fun c =>
            { key := {}
              scope := c.name
              tokens := (source.nodes.filter fun v => v.collection == c.id).map fun v =>
                (p.token .unspecified v).value }) ++
        (config.brands.flatMap fun brand =>
          config.breakpoints.map (Cell.ofBrandBreakpoint brand)).flatMap sized ++
        ((config.brands.filter fun brand => brand.colorsFrom.isNone).flatMap fun brand =>
          config.colorModes.map (Cell.ofBrandColorMode brand)).flatMap colored ∧
      (∀ cell, p.Sorts cell (source.nodes.filter fun v => v.type ≠ .color ∧
        (p.graph.kind? v = some (.semantic .breakpoint) ∨ p.graph.kind? v = some .component))
          (sized cell)) ∧
      ∀ cell, p.Sorts cell (source.nodes.filter fun v => v.type = .color ∧
        (p.graph.kind? v = some (.semantic .colorMode) ∨ p.graph.kind? v = some .component))
          (colored cell) := by
  obtain ⟨valid, hgraph, rfl, -⟩ := create_eq_ok_iff.mp created
  have hnodes := Graph.nodes_of_ofExport hgraph
  obtain ⟨files, hfiles⟩ := p.exists_tokenFiles_eq_ok
  obtain ⟨sized, colored, hsized, hcolored, hvalue⟩ := tokenFiles_eq_ok hfiles
  -- which cells there are is known from the checks of the configuration
  obtain rfl := Except.ok_unique (breakpointCells_eq valid) hsized
  obtain rfl := Except.ok_unique (colorCells_eq valid) hcolored
  refine ⟨files, fun cell => (p.filesIn p.isDimension cell).value,
    fun cell => (p.filesIn p.isColor cell).value, hfiles, ?_, ?_, ?_⟩
  · rw [hvalue, primitiveFiles_eq, Graph.collections_of_ofExport hgraph, hnodes]
    rfl
  · rw [← hnodes]
    exact sorts_filesIn_of_iff fun _ => isDimension_iff
  · rw [← hnodes]
    exact sorts_filesIn_of_iff fun _ => isColor_iff

end Pipeline

/-! ## Interleaved scopes -/

namespace Sample

def widgets : Collection :=
  ⟨⟨"widgets"⟩, "Widgets", .component, [⟨⟨"one"⟩, "One"⟩]⟩

def widget (path : String) : Variable :=
  ⟨⟨path⟩, path, widgets.id, .float, Table.empty.insert ⟨"one"⟩ (.alias sixteen.id)⟩

/-- A color beside the lengths of the buttons. -/
def buttonFill : Variable :=
  { widget "Component/Button/fill" with
    type := .color
    entries := Table.empty.insert ⟨"one"⟩ (.literal (.color ⟨0, 0, 0, 1⟩)) }

def widgetSource : Export where
  collections := [sizes, breakpoints, widgets].map fun c => ⟨c.id, c.name, c.modes⟩
  nodes :=
    [widget "Component/Button/height", sixteen, body, widget "Component/Card/padding", buttonFill,
      widget "Component/Button/padding", widget "Component/stray"]

def widgetry : Pipeline where
  graph := ⟨.ofList [sizes, breakpoints, widgets], .ofList widgetSource.nodes, [], []⟩
  config :=
    { brands := [{ name := "core" }]
      breakpoints := [⟨"small", ⟨"sm"⟩⟩, ⟨"large", ⟨"lg"⟩⟩]
      colorModes := [⟨"dark", ⟨"dark"⟩⟩] }
  options := {}

/-- The files of the widgets: their cells, their scopes and the paths of their tokens. -/
def widgetFiles : List (String × String × List String) := [
  ("*", "_Sizes", ["Size/16"]),
  ("core/small", "Button", ["Component/Button/height", "Component/Button/padding"]),
  ("core/small", "semantic", ["Text/body", "Component/stray"]),
  ("core/small", "Card", ["Component/Card/padding"]),
  ("core/large", "Button", ["Component/Button/height", "Component/Button/padding"]),
  ("core/large", "semantic", ["Text/body", "Component/stray"]),
  ("core/large", "Card", ["Component/Card/padding"]),
  ("core/dark", "Button", ["Component/Button/fill"])]

/-- The scopes of the variables take turns; the files do not.  Each of the three cells has a file of
its own for the buttons. -/
theorem tokenFiles_of_widgetry :
    Pipeline.create widgetSource widgetry.config {} = .ok widgetry ∧
      ∃ files, widgetry.tokenFiles = .ok files ∧
        files.value.map (fun file => (file.key.text, file.scope, file.tokens.map Token.path)) =
          widgetFiles := by
  have hcreated : Pipeline.create widgetSource widgetry.config {} = .ok widgetry :=
    Pipeline.create_eq_ok_iff.mpr
      ⟨Configuration.validate_eq_ok_iff.mp (by decide +kernel), by decide +kernel, rfl, rfl⟩
  obtain ⟨files, -, -, hfiles, -⟩ := Pipeline.tokenFiles_of_create hcreated
  refine ⟨hcreated, files, hfiles, ?_⟩
  have hlisted : (widgetry.tokenFiles.toOption.map fun files => files.value.map fun file =>
      (file.key.text, file.scope, file.tokens.map Token.path)) = some widgetFiles := by
    decide +kernel
  rw [hfiles] at hlisted
  exact Option.some.inj hlisted

end Sample

end DesignTokens
