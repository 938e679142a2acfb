import DesignTokens.Configuration
import DesignTokens.Proofs.Except
import DesignTokens.Proofs.Table

/-!
# Valid configurations

In a configuration that passes its checks no two brands have one name, no two modes of an axis have
one key, and colors are taken from brands with a palette (`Valid`).  `context_eq_ok_iff` says when
the keys of a cell have a context, and which one that is.
-/

namespace DesignTokens.Configuration

variable {config : Configuration} {context : Context} {key : CellKey}

/-- What the checks of a configuration establish. -/
structure Valid (config : Configuration) : Prop where
  names_nodup : (config.brands.map Brand.name).Nodup
  keys_nodup : ∀ axis, ((config.modes axis).map AxisMode.key).Nodup
  owned : ∀ brand ∈ config.brands, ∀ source ∈ brand.colorsFrom,
    ∃ owner, config.brand? source = some owner ∧ owner.hasPalette

/-! ## The checks -/

theorem leastRepeated?_eq_none_iff {texts : List String} :
    leastRepeated? texts = none ↔ texts.Nodup := by
  unfold leastRepeated?
  rw [List.head?_eq_none_iff, ← List.length_eq_zero_iff, List.length_mergeSort,
    List.length_eq_zero_iff, List.filter_eq_nil_iff, List.nodup_iff_count_le_one]
  constructor
  · intro h text
    by_cases hmem : text ∈ texts
    · simpa using h text hmem
    · simp [List.count_eq_zero_of_not_mem hmem]
  · intro h text _
    simpa using h text

private theorem checkBrandNames_eq_ok_iff :
    config.checkBrandNames = .ok () ↔ (config.brands.map Brand.name).Nodup := by
  rw [← leastRepeated?_eq_none_iff, checkBrandNames]
  split
  · next name h => simp [h]
  · next h => simp [h]

private theorem checkKeys_eq_ok_iff {axis : KeyedAxis} :
    config.checkKeys axis = .ok () ↔ ((config.modes axis).map AxisMode.key).Nodup := by
  rw [← leastRepeated?_eq_none_iff, checkKeys]
  split
  · next key h => simp [h]
  · next h => simp [h]

private theorem checkInheritance_eq_ok_iff {brand : Brand} :
    config.checkInheritance brand = .ok () ↔ ∀ source ∈ brand.colorsFrom,
      ∃ owner, config.brand? source = some owner ∧ owner.hasPalette := by
  unfold checkInheritance
  split
  · next h => simp [h]
  · next source h =>
    split
    · next hnone => simp [h, hnone]
    · next owner howner =>
      by_cases hpalette : owner.hasPalette
      · simp [h, howner, hpalette]
      · simp [h, howner, hpalette]

theorem validate_eq_ok_iff : config.validate = .ok () ↔ config.Valid := by
  unfold validate
  simp only [Except.check_bind_eq_ok_iff, Except.forM_eq_ok_iff, checkBrandNames_eq_ok_iff,
    checkKeys_eq_ok_iff, checkInheritance_eq_ok_iff]
  constructor
  · rintro ⟨hnames, hbreakpoints, hcolorModes, hdensities, howned⟩
    refine ⟨hnames, ?_, howned⟩
    intro axis
    cases axis with
    | breakpoint => exact hbreakpoints
    | colorMode => exact hcolorModes
    | density => exact hdensities
  · intro valid
    exact ⟨valid.names_nodup, valid.keys_nodup _, valid.keys_nodup _, valid.keys_nodup _,
      valid.owned⟩

/-! ## Contexts -/

theorem brand?_isSome_iff {name : String} :
    (config.brand? name).isSome ↔ ∃ brand ∈ config.brands, brand.name = name := by
  simp [brand?]

theorem exists_brand_of_mem {brand : Brand} (h : brand ∈ config.brands) :
    ∀ name ∈ some brand.name, ∃ owner ∈ config.brands, owner.name = name := by
  rintro name ⟨⟩
  exact ⟨brand, h, rfl⟩

/-- A key that has a mode is one of its axis. -/
theorem exists_mem_of_mode?_eq_ok {axis : KeyedAxis} {key : String} {mode : Option ModeId}
    (h : config.mode? axis (some key) = .ok mode) : ∃ m ∈ config.modes axis, m.key = key := by
  unfold mode? at h
  split at h
  · next heq => cases heq
  · next k heq =>
    obtain rfl := Option.some.inj heq
    split at h
    · next m hm =>
      exact ⟨m, List.mem_of_find?_eq_some hm, by simpa using List.find?_some hm⟩
    · cases h

theorem context_eq_ok_iff :
    config.context key = .ok context ↔
      (∀ name ∈ key.brand, ∃ brand ∈ config.brands, brand.name = name) ∧
        context.brandName = key.brand ∧
        config.mode? .breakpoint key.breakpoint = .ok context.breakpoint ∧
        config.mode? .colorMode key.colorMode = .ok context.colorMode ∧
        config.mode? .density key.density = .ok context.density := by
  -- what is left when the brand is known
  have modes : (do
        return { brandName := key.brand
                 breakpoint := ← config.mode? .breakpoint key.breakpoint
                 colorMode := ← config.mode? .colorMode key.colorMode
                 density := ← config.mode? .density key.density }) =
        (.ok context : Except ConfigurationProblem Context) ↔
      context.brandName = key.brand ∧
        config.mode? .breakpoint key.breakpoint = .ok context.breakpoint ∧
        config.mode? .colorMode key.colorMode = .ok context.colorMode ∧
        config.mode? .density key.density = .ok context.density := by
    simp only [Except.bind_eq_ok_iff, Except.pure_eq_ok_iff]
    constructor
    · rintro ⟨breakpoint, hbreakpoint, colorMode, hcolorMode, density, hdensity, rfl⟩
      exact ⟨rfl, hbreakpoint, hcolorMode, hdensity⟩
    · rintro ⟨hbrand, hbreakpoint, hcolorMode, hdensity⟩
      refine ⟨_, hbreakpoint, _, hcolorMode, _, hdensity, ?_⟩
      rw [← hbrand]
  rw [← modes, Configuration.context]
  cases hbrand : key.brand with
  | none => simp
  | some name =>
      by_cases hknown : (config.brand? name).isSome
      · have hmem := brand?_isSome_iff.mp hknown
        simp [hmem, Option.isSome_iff_ne_none.mp hknown]
      · have hmem := mt brand?_isSome_iff.mpr hknown
        simp [hmem, Option.not_isSome_iff_eq_none.mp hknown, throw, throwThe,
          MonadExceptOf.throw, bind, Except.bind]

theorem exists_mode?_eq_ok_iff {axis : KeyedAxis} {key : Option String} :
    (∃ mode, config.mode? axis key = .ok mode) ↔ ∀ k ∈ key, ∃ m ∈ config.modes axis, m.key = k := by
  constructor
  · rintro ⟨mode, h⟩ k rfl
    exact exists_mem_of_mode?_eq_ok h
  · intro h
    cases key with
    | none => exact ⟨none, rfl⟩
    | some k =>
        obtain ⟨m, hm, hkey⟩ := h k rfl
        have hfound : ((config.modes axis).find? fun mode => mode.key == k).isSome := by
          rw [List.find?_isSome]
          exact ⟨m, hm, by simpa using hkey⟩
        obtain ⟨found, hfound⟩ := Option.isSome_iff_exists.mp hfound
        exact ⟨some found.mode, by simp [mode?, hfound]⟩

/-- In a valid configuration the key of a mode stands for that very mode. -/
theorem Valid.mode?_eq_ok (valid : config.Valid) {axis : KeyedAxis} {m : AxisMode}
    (hm : m ∈ config.modes axis) : config.mode? axis (some m.key) = .ok (some m.mode) := by
  have hfound := find?_eq_some_of_nodup (valid.keys_nodup axis) hm
  simp [mode?, hfound]

/-- Each key of a cell is one that the configuration lists on its axis. -/
structure Lists (config : Configuration) (key : CellKey) : Prop where
  brand : ∀ name ∈ key.brand, ∃ brand ∈ config.brands, brand.name = name
  breakpoint : ∀ k ∈ key.breakpoint, ∃ m ∈ config.breakpoints, m.key = k
  colorMode : ∀ k ∈ key.colorMode, ∃ m ∈ config.colorModes, m.key = k
  density : ∀ k ∈ key.density, ∃ m ∈ config.densities, m.key = k

/-- The keys of a cell have a context exactly if they are listed. -/
theorem exists_context_iff : (∃ context, config.context key = .ok context) ↔ config.Lists key := by
  constructor
  · rintro ⟨context, h⟩
    obtain ⟨hbrand, -, hbreakpoint, hcolorMode, hdensity⟩ := context_eq_ok_iff.mp h
    exact ⟨hbrand, exists_mode?_eq_ok_iff.mp ⟨_, hbreakpoint⟩,
      exists_mode?_eq_ok_iff.mp ⟨_, hcolorMode⟩, exists_mode?_eq_ok_iff.mp ⟨_, hdensity⟩⟩
  · intro listed
    obtain ⟨breakpoint, hbreakpoint⟩ : ∃ mode, config.mode? .breakpoint key.breakpoint = .ok mode :=
      exists_mode?_eq_ok_iff.mpr listed.breakpoint
    obtain ⟨colorMode, hcolorMode⟩ : ∃ mode, config.mode? .colorMode key.colorMode = .ok mode :=
      exists_mode?_eq_ok_iff.mpr listed.colorMode
    obtain ⟨density, hdensity⟩ : ∃ mode, config.mode? .density key.density = .ok mode :=
      exists_mode?_eq_ok_iff.mpr listed.density
    exact ⟨⟨key.brand, breakpoint, colorMode, density⟩,
      context_eq_ok_iff.mpr ⟨listed.brand, rfl, hbreakpoint, hcolorMode, hdensity⟩⟩

end DesignTokens.Configuration
