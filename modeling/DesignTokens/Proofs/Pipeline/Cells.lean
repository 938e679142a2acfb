import DesignTokens.Pipeline.Basic
import DesignTokens.Proofs.Configuration

/-!
# The cells of a pipeline

A pipeline lays out its tokens in the cells of brand and breakpoint and in those of brand and color
mode.  `Lays` says what a list of cells has to do with the list of their keys: one cell for each
key, in order, in the context of the key.  In a valid configuration no key comes twice, so a cell is
found again by its key among all that is made from the cells (`filter_flatMap_eq`).
-/

namespace DesignTokens

/-! ## Keys -/

namespace CellKey

private theorem ofBrandBreakpoint_inj {brand brand' breakpoint breakpoint' : String}
    (h : ofBrandBreakpoint brand breakpoint = ofBrandBreakpoint brand' breakpoint') :
    brand = brand' ∧ breakpoint = breakpoint' := by
  simpa [ofBrandBreakpoint] using h

private theorem ofBrandColorMode_inj {brand brand' colorMode colorMode' : String}
    (h : ofBrandColorMode brand colorMode = ofBrandColorMode brand' colorMode') :
    brand = brand' ∧ colorMode = colorMode' := by
  simpa [ofBrandColorMode] using h

theorem ofBrandBreakpoint_ne_ofBrandColorMode {brand brand' breakpoint colorMode : String} :
    ofBrandBreakpoint brand breakpoint ≠ ofBrandColorMode brand' colorMode := by
  simp [ofBrandBreakpoint, ofBrandColorMode]

end CellKey

namespace Configuration

variable {config : Configuration} {brand key : String}

/-- The keys of all brands and breakpoints. -/
def breakpointKeys (config : Configuration) : List CellKey :=
  config.brands.flatMap fun brand => config.breakpoints.map fun breakpoint =>
    CellKey.ofBrandBreakpoint brand.name breakpoint.key

/-- The keys of the brands with a palette and all color modes. -/
def colorKeys (config : Configuration) : List CellKey :=
  config.brandsWithPalette.flatMap fun brand => config.colorModes.map fun colorMode =>
    CellKey.ofBrandColorMode brand.name colorMode.key

theorem mem_breakpointKeys_iff {key : CellKey} :
    key ∈ config.breakpointKeys ↔ ∃ brand ∈ config.brands, ∃ breakpoint ∈ config.breakpoints,
      CellKey.ofBrandBreakpoint brand.name breakpoint.key = key := by
  simp [breakpointKeys]

theorem mem_colorKeys_iff {key : CellKey} :
    key ∈ config.colorKeys ↔ ∃ brand ∈ config.brandsWithPalette,
      ∃ colorMode ∈ config.colorModes,
        CellKey.ofBrandColorMode brand.name colorMode.key = key := by
  simp [colorKeys]

/-- Keys of a brand and one more axis are distinct if the names and the keys of the axis are. -/
theorem nodup_flatMap_keys {brands : List Brand} {modes : List AxisMode}
    {keyOf : String → String → CellKey}
    (injective : ∀ {name key name' key'}, keyOf name key = keyOf name' key' →
      name = name' ∧ key = key')
    (hnames : (brands.map Brand.name).Nodup) (hkeys : (modes.map AxisMode.key).Nodup) :
    (brands.flatMap fun brand => modes.map fun mode => keyOf brand.name mode.key).Nodup := by
  rw [List.nodup_flatMap]
  constructor
  · intro brand _
    have hpairs := List.pairwise_map.mp hkeys
    refine List.pairwise_map.mpr (hpairs.imp ?_)
    intro mode mode' hne heq
    exact hne (injective heq).2
  · refine (List.pairwise_map.mp hnames).imp ?_
    intro brand brand' hne
    simp only [Function.onFun, List.disjoint_left, List.mem_map]
    rintro key ⟨mode, -, rfl⟩ ⟨mode', -, heq⟩
    exact hne (injective heq).1.symm

theorem Valid.breakpointKeys_nodup (valid : config.Valid) : config.breakpointKeys.Nodup :=
  nodup_flatMap_keys CellKey.ofBrandBreakpoint_inj valid.names_nodup (valid.keys_nodup .breakpoint)

theorem Valid.colorKeys_nodup (valid : config.Valid) : config.colorKeys.Nodup := by
  have hsub : (config.brandsWithPalette.map Brand.name).Sublist (config.brands.map Brand.name) :=
    List.filter_sublist.map _
  exact nodup_flatMap_keys CellKey.ofBrandColorMode_inj (valid.names_nodup.sublist hsub)
    (valid.keys_nodup .colorMode)

theorem ofBrandBreakpoint_not_mem_colorKeys :
    CellKey.ofBrandBreakpoint brand key ∉ config.colorKeys := by
  rw [mem_colorKeys_iff]
  rintro ⟨owner, -, mode, -, h⟩
  exact CellKey.ofBrandBreakpoint_ne_ofBrandColorMode h.symm

theorem ofBrandColorMode_not_mem_breakpointKeys :
    CellKey.ofBrandColorMode brand key ∉ config.breakpointKeys := by
  rw [mem_breakpointKeys_iff]
  rintro ⟨owner, -, mode, -, h⟩
  exact CellKey.ofBrandBreakpoint_ne_ofBrandColorMode h

/-- A key of brand and breakpoint that has a context is one of the configuration. -/
theorem ofBrandBreakpoint_mem_breakpointKeys {context : Context}
    (h : config.context (.ofBrandBreakpoint brand key) = .ok context) :
    CellKey.ofBrandBreakpoint brand key ∈ config.breakpointKeys := by
  obtain ⟨hbrand, -, hmode, -, -⟩ := context_eq_ok_iff.mp h
  obtain ⟨owner, howner, rfl⟩ := hbrand brand rfl
  obtain ⟨mode, hmem, rfl⟩ := exists_mem_of_mode?_eq_ok hmode
  exact mem_breakpointKeys_iff.mpr ⟨owner, howner, mode, hmem, rfl⟩

/-- A key of color mode that has a context is one of the configuration if the brand owns its
palette. -/
theorem ofBrandColorMode_mem_colorKeys {context : Context} {owner : Brand}
    (howner : config.brand? brand = some owner) (hpalette : owner.hasPalette)
    (h : config.context (.ofBrandColorMode brand key) = .ok context) :
    CellKey.ofBrandColorMode brand key ∈ config.colorKeys := by
  obtain ⟨-, -, -, hmode, -⟩ := context_eq_ok_iff.mp h
  obtain ⟨mode, hmem, rfl⟩ := exists_mem_of_mode?_eq_ok hmode
  have hname : owner.name = brand := by simpa using List.find?_some howner
  have hlisted : owner ∈ config.brandsWithPalette :=
    List.mem_filter.mpr ⟨List.mem_of_find?_eq_some howner, hpalette⟩
  exact mem_colorKeys_iff.mpr ⟨owner, hlisted, mode, hmem, by rw [hname]⟩

end Configuration

/-! ## Cells -/

namespace Pipeline

variable {p : Pipeline} {keys : List CellKey} {cells : List Cell}

/-- The cells stand for the keys, in their contexts. -/
structure Lays (p : Pipeline) (keys : List CellKey) (cells : List Cell) : Prop where
  keys_eq : cells.map Cell.key = keys
  context_eq : ∀ cell ∈ cells, p.config.context cell.key = .ok cell.context

theorem cell_eq_ok_iff {key : CellKey} {cell : Cell} :
    p.cell key = .ok cell ↔ cell.key = key ∧ p.config.context key = .ok cell.context := by
  simp only [Pipeline.cell, Except.bind_eq_ok_iff, Except.pure_eq_ok_iff]
  constructor
  · rintro ⟨context, hcontext, rfl⟩
    exact ⟨rfl, hcontext⟩
  · rintro ⟨rfl, hcontext⟩
    exact ⟨cell.context, hcontext, rfl⟩

theorem lays_of_mapM (h : keys.mapM p.cell = .ok cells) : p.Lays keys cells := by
  have hall := Except.mapM_eq_ok_iff.mp h
  induction hall with
  | nil => exact ⟨rfl, by simp⟩
  | cons hcell hrest ih =>
      obtain ⟨rfl, hcontext⟩ := cell_eq_ok_iff.mp hcell
      obtain ⟨hkeys, hcontexts⟩ := ih (Except.mapM_eq_ok_iff.mpr hrest)
      exact ⟨by simp [hkeys], List.forall_mem_cons.mpr ⟨hcontext, hcontexts⟩⟩

theorem lays_breakpointCells (h : p.breakpointCells = .ok cells) :
    p.Lays p.config.breakpointKeys cells :=
  lays_of_mapM h

theorem lays_colorCells (h : p.colorCells = .ok cells) : p.Lays p.config.colorKeys cells :=
  lays_of_mapM h

/-- The keys determine the cells. -/
theorem Lays.unique {others : List Cell} (lays : p.Lays keys cells) (lays' : p.Lays keys others) :
    cells = others := by
  have hall : ∀ {cells : List Cell}, p.Lays keys cells → keys.mapM p.cell = .ok cells := by
    intro cells lays
    have hcells : cells.mapM (p.cell ∘ Cell.key) = .ok (cells.map id) :=
      Except.mapM_eq_ok_map fun cell hcell =>
        cell_eq_ok_iff.mpr ⟨rfl, lays.context_eq cell hcell⟩
    rw [← lays.keys_eq, List.mapM_map, hcells, List.map_id]
  exact Except.ok_unique (hall lays) (hall lays')

theorem Lays.mem_keys (lays : p.Lays keys cells) {cell : Cell} (hcell : cell ∈ cells) :
    cell.key ∈ keys :=
  lays.keys_eq ▸ List.mem_map_of_mem hcell

/-- A key that is laid out has its cell in its context. -/
theorem Lays.mem (lays : p.Lays keys cells) {key : CellKey} {context : Context} (hkey : key ∈ keys)
    (hcontext : p.config.context key = .ok context) : ⟨key, context⟩ ∈ cells := by
  rw [← lays.keys_eq, List.mem_map] at hkey
  obtain ⟨cell, hcell, rfl⟩ := hkey
  rw [← Except.ok_unique (lays.context_eq cell hcell) hcontext]
  exact hcell

end Pipeline

/-! ## Finding a cell again -/

section

variable {α β : Type} {cells : List α} {keyOf : α → CellKey} {part : α → List β}
  {itemKey : β → CellKey}

theorem filter_flatMap_eq_nil
    (named : ∀ cell ∈ cells, ∀ item ∈ part cell, itemKey item = keyOf cell)
    {key : CellKey} (hkey : key ∉ cells.map keyOf) :
    (cells.flatMap part).filter (fun item => itemKey item == key) = [] := by
  rw [List.filter_eq_nil_iff]
  intro item hitem
  obtain ⟨cell, hcell, hmem⟩ := List.mem_flatMap.mp hitem
  rw [named cell hcell item hmem, beq_iff_eq]
  rintro rfl
  exact hkey (List.mem_map_of_mem hcell)

/-- Of all that is made from cells with distinct keys, what has the key of a cell is what was made
from that cell. -/
theorem filter_flatMap_eq (distinct : (cells.map keyOf).Nodup)
    (named : ∀ cell ∈ cells, ∀ item ∈ part cell, itemKey item = keyOf cell)
    {cell : α} (hcell : cell ∈ cells) :
    (cells.flatMap part).filter (fun item => itemKey item == keyOf cell) = part cell := by
  induction cells with
  | nil => cases hcell
  | cons first rest ih =>
      obtain ⟨hfresh, hdistinct⟩ := List.nodup_cons.mp distinct
      obtain ⟨hfirst, hrest⟩ := List.forall_mem_cons.mp named
      rw [List.flatMap_cons, List.filter_append]
      rcases List.mem_cons.mp hcell with rfl | hcell
      -- the cell is the first one, and no later one has its key
      · have hown : (part cell).filter (fun item => itemKey item == keyOf cell) = part cell := by
          simpa using hfirst
        rw [hown, filter_flatMap_eq_nil hrest hfresh, List.append_nil]
      -- the cell is a later one, so the first has another key
      · have hother : (part first).filter (fun item => itemKey item == keyOf cell) = [] := by
          rw [List.filter_eq_nil_iff]
          intro item hitem
          rw [hfirst item hitem, beq_iff_eq]
          intro heq
          exact hfresh (heq ▸ List.mem_map_of_mem hcell)
        rw [hother, List.nil_append]
        exact ih hdistinct hrest hcell

end

namespace Pipeline.Lays

variable {p : Pipeline} {keys : List CellKey} {cells : List Cell} {β : Type}
  {part : Cell → List β} {itemKey : β → CellKey} {key : CellKey}

theorem filter_flatMap_eq (lays : p.Lays keys cells) (distinct : keys.Nodup)
    (named : ∀ cell ∈ cells, ∀ item ∈ part cell, itemKey item = cell.key) {context : Context}
    (hkey : key ∈ keys) (hcontext : p.config.context key = .ok context) :
    (cells.flatMap part).filter (fun item => itemKey item == key) = part ⟨key, context⟩ :=
  DesignTokens.filter_flatMap_eq (lays.keys_eq ▸ distinct) named (lays.mem hkey hcontext)

theorem filter_flatMap_eq_nil (lays : p.Lays keys cells)
    (named : ∀ cell ∈ cells, ∀ item ∈ part cell, itemKey item = cell.key) (hkey : key ∉ keys) :
    (cells.flatMap part).filter (fun item => itemKey item == key) = [] :=
  DesignTokens.filter_flatMap_eq_nil named (lays.keys_eq ▸ hkey)

end Pipeline.Lays

end DesignTokens
