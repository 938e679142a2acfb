import DesignTokens.Proofs.Pipeline.DeclaredCells

/-!
# Composites are complete

Every text style has one token in each cell of brand and breakpoint, and every effect style one in
each cell of color mode and brand with a palette; there are no other composites.  The layers of an
effect token are the shadows of the style that can be seen.

A brand without a palette has no effects of its own.  Its colors are those of another brand, and the
checks of the configuration see to it that this one has a palette.  The two selections of brands,
those with effects and those with an entry in `paletteInheritance`, are complements of each other,
so whoever looks for the effects of a brand finds them there or one step away
(`composites_of_create`).
-/

namespace DesignTokens

/-! ## What a layer has to show -/

/-- A property is bound to a given variable, or has a given value if there is no such variable. -/
structure Property.Shows {α : Type} (property : Property α) (id : Option VariableId)
    (literal : Option α) : Prop where
  boundTo?_eq : property.boundTo? = id
  value_eq : id = none → property.value = literal

/-- A layer is that of a shadow. -/
structure Effect.IsShownBy (effect : Effect) (layer : ShadowLayer) : Prop where
  kind : layer.kind = .inner ↔ effect.type = .innerShadow
  color : layer.color.Shows effect.bindings.color (effect.color.map Rgba.text)
  offsetX : layer.offsetX.Shows effect.bindings.offsetX (some effect.offset.x.toHundredths)
  offsetY : layer.offsetY.Shows effect.bindings.offsetY (some effect.offset.y.toHundredths)
  radius : layer.radius.Shows effect.bindings.radius (some effect.radius.toHundredths)
  spread : layer.spread.Shows effect.bindings.spread (some effect.spread.toHundredths)
  blendMode : layer.blendMode = effect.blendMode.getD "NORMAL"

/-- The shadows of a style that can be seen, in the order of declaration. -/
def EffectStyle.shadows (style : EffectStyle) : List Effect :=
  style.effects.filter fun effect =>
    effect.visible && (effect.type == .dropShadow || effect.type == .innerShadow)

private theorem EffectStyle.filter_isShadow (style : EffectStyle) :
    (style.effects.filter fun effect => effect.visible && effect.isShadow) = style.shadows := by
  refine List.filter_congr ?_
  intro effect _
  unfold Effect.isShadow
  cases effect.type <;> rfl

/-- For each color mode and each effect style there is a token of one brand. -/
def TokenSet.HasEffectsOf (tokens : TokenSet) (brand : String) (colorModes : List AxisMode)
    (styles : List EffectStyle) : Prop :=
  ∀ colorMode ∈ colorModes, ∀ style ∈ styles, ∃ token ∈ tokens.effects,
    token.key = .ofBrandColorMode brand colorMode.key ∧ token.styleId = style.id ∧
      token.name = style.name

namespace Pipeline

variable {p : Pipeline}

/-! ## Layers -/

theorem shows_dimension (context : Context) (id : Option VariableId) (literal : Binary64) :
    (p.dimension context id literal).value.Shows id (some literal.toHundredths) := by
  cases id with
  | none => exact ⟨rfl, fun _ => rfl⟩
  | some id => exact ⟨rfl, fun h => nomatch h⟩

private theorem isShownBy_shadow (context : Context) (effect : Effect) :
    effect.IsShownBy (p.shadow context effect).value := by
  have hkind : (if effect.type == .innerShadow then ShadowKind.inner else .drop) = .inner ↔
      effect.type = .innerShadow := by
    cases effect.type <;> decide
  unfold shadow
  cases hcolor : effect.bindings.color with
  | none =>
      exact ⟨hkind, ⟨hcolor.symm, fun _ => rfl⟩, shows_dimension context _ _,
        shows_dimension context _ _, shows_dimension context _ _, shows_dimension context _ _, rfl⟩
  | some id =>
      exact ⟨hkind, ⟨hcolor.symm, fun h => nomatch hcolor.symm.trans h⟩,
        shows_dimension context _ _, shows_dimension context _ _, shows_dimension context _ _,
        shows_dimension context _ _, rfl⟩

/-! ## Tokens -/

private theorem value_typographyIn (cell : Cell) : (p.typographyIn cell).value =
    p.graph.textStyles.map fun style =>
      ⟨cell.key, style.id, style.name, (p.typographyOf cell.context style).value⟩ := by
  simp only [typographyIn, Logged.value_forList, Logged.value_bind, Logged.value_pure]

private theorem value_effectsIn (cell : Cell) : (p.effectsIn cell).value =
    p.graph.effectStyles.map fun style =>
      ⟨cell.key, style.id, style.name,
        style.shadows.map fun effect => (p.shadow cell.context effect).value⟩ := by
  simp only [effectsIn, effectOf, Logged.value_forList, Logged.value_bind, Logged.value_pure,
    EffectStyle.filter_isShadow]

/-- The typography tokens of all brands and breakpoints. -/
def typographyTokens (p : Pipeline) : List TypographyToken :=
  p.config.brands.flatMap fun brand => p.config.breakpoints.flatMap fun breakpoint =>
    (p.typographyIn (.ofBrandBreakpoint brand breakpoint)).value

/-- The effect tokens of all brands with a palette and all color modes. -/
def effectTokens (p : Pipeline) : List EffectToken :=
  p.config.brandsWithPalette.flatMap fun brand => p.config.colorModes.flatMap fun colorMode =>
    (p.effectsIn (.ofBrandColorMode brand colorMode)).value

private theorem value_typography (valid : p.config.Valid)
    {composites : Logged (List TypographyToken)} (h : p.typography = .ok composites) :
    composites.value = p.typographyTokens := by
  obtain ⟨sized, hsized, hvalue⟩ := typography_eq_ok h
  obtain rfl := Except.ok_unique (breakpointCells_eq valid) hsized
  rw [hvalue, List.flatMap_assoc]
  simp only [typographyTokens, Configuration.cellsOf, List.flatMap_map]

private theorem value_effects (valid : p.config.Valid) {composites : Logged (List EffectToken)}
    (h : p.effects = .ok composites) : composites.value = p.effectTokens := by
  obtain ⟨colored, hcolored, hvalue⟩ := effects_eq_ok h
  obtain rfl := Except.ok_unique (colorCells_eq valid) hcolored
  rw [hvalue, List.flatMap_assoc]
  simp only [effectTokens, List.flatMap_map]

/-- A valid configuration has a token set with these composites. -/
theorem exists_composites_eq (valid : p.config.Valid) : ∃ built, p.tokens = .ok built ∧
    built.value.typography = p.typographyTokens ∧ built.value.effects = p.effectTokens ∧
      built.value.paletteInheritance = p.paletteInheritance := by
  obtain ⟨built, hbuilt⟩ := p.exists_tokens_eq_ok
  obtain ⟨_, typography, effects, _, -, htypography, heffects, -, hvalue, -⟩ :=
    tokens_eq_ok hbuilt
  have hvalues := value_typography valid htypography
  have hlayers := value_effects valid heffects
  exact ⟨built, hbuilt, by rw [hvalue, hvalues], by rw [hvalue, hlayers], by rw [hvalue]⟩

/-- A brand with a palette has an effect token of each style in each color mode. -/
theorem hasEffectsOf {tokens : TokenSet} (heffects : tokens.effects = p.effectTokens)
    {brand : Brand} (hbrand : brand ∈ p.config.brands) (hpalette : brand.hasPalette) :
    tokens.HasEffectsOf brand.name p.config.colorModes p.graph.effectStyles := by
  intro colorMode hcolorMode style hstyle
  have hlisted : brand ∈ p.config.brandsWithPalette := List.mem_filter.mpr ⟨hbrand, hpalette⟩
  refine ⟨(p.effectOf (.ofBrandColorMode brand colorMode) style).value, ?_, rfl, rfl, rfl⟩
  rw [heffects]
  refine List.mem_flatMap.mpr ⟨brand, hlisted, List.mem_flatMap.mpr ⟨colorMode, hcolorMode, ?_⟩⟩
  rw [effectsIn, Logged.value_forList]
  exact List.mem_map_of_mem hstyle

/-! ## Inheritance -/

private theorem mem_keys_paletteInheritance_iff {name : String} :
    name ∈ p.paletteInheritance.keys ↔
      ∃ brand ∈ p.config.brands, brand.name = name ∧ brand.colorsFrom.isSome := by
  rw [paletteInheritance, Table.mem_keys_ofList_iff, List.mem_map]
  constructor
  · rintro ⟨entry, hentry, rfl⟩
    obtain ⟨brand, hbrand, hsource⟩ := List.mem_filterMap.mp hentry
    obtain ⟨source, hcolors, rfl⟩ := Option.map_eq_some_iff.mp hsource
    exact ⟨brand, hbrand, rfl, by simp [hcolors]⟩
  · rintro ⟨brand, hbrand, rfl, hheir⟩
    obtain ⟨source, hcolors⟩ := Option.isSome_iff_exists.mp hheir
    exact ⟨(brand.name, source), List.mem_filterMap.mpr ⟨brand, hbrand, by simp [hcolors]⟩, rfl⟩

/-- No two brands have one name, so no entry takes the place of another one. -/
theorem get?_paletteInheritance_eq_some_iff (hnames : (p.config.brands.map Brand.name).Nodup)
    {name owner : String} :
    p.paletteInheritance.get? name = some owner ↔
      ∃ brand ∈ p.config.brands, brand.name = name ∧ brand.colorsFrom = some owner := by
  have hdistinct : ((p.config.brands.filterMap fun brand =>
      brand.colorsFrom.map fun source => (brand.name, source)).map Prod.fst).Nodup := by
    rw [List.Nodup, List.pairwise_map, List.pairwise_filterMap]
    refine (List.pairwise_map.mp hnames).imp ?_
    intro a b hne entry hentry other hother
    obtain ⟨_, -, rfl⟩ := Option.map_eq_some_iff.mp hentry
    obtain ⟨_, -, rfl⟩ := Option.map_eq_some_iff.mp hother
    exact hne
  rw [paletteInheritance, Table.get?_ofList_eq_some_iff hdistinct, List.mem_filterMap]
  refine exists_congr fun brand => and_congr_right fun _ => ?_
  simp [Option.map_eq_some_iff, and_comm]

theorem get?_paletteInheritance (hnames : (p.config.brands.map Brand.name).Nodup) {brand : Brand}
    (hbrand : brand ∈ p.config.brands) :
    p.paletteInheritance.get? brand.name = brand.colorsFrom := by
  refine Option.ext fun owner => ?_
  rw [get?_paletteInheritance_eq_some_iff hnames]
  constructor
  · rintro ⟨other, hother, hname, hcolors⟩
    obtain rfl := List.inj_on_of_nodup_map hnames hother hbrand hname
    exact hcolors
  · intro hcolors
    exact ⟨brand, hbrand, rfl, hcolors⟩

/-- The colors of an heir are those of a brand with a palette, which is no heir. -/
theorem exists_owner (valid : p.config.Valid) {name owner : String}
    (h : p.paletteInheritance.get? name = some owner) :
    ∃ brand ∈ p.config.brands, brand.name = owner ∧ brand.colorsFrom = none ∧
      owner ∉ p.paletteInheritance.keys := by
  obtain ⟨heir, hheir, -, hcolors⟩ :=
    (get?_paletteInheritance_eq_some_iff valid.names_nodup).mp h
  obtain ⟨brand, hfound, hpalette⟩ := valid.owned heir hheir owner hcolors
  have hbrand : brand ∈ p.config.brands := List.mem_of_find?_eq_some hfound
  obtain rfl : brand.name = owner := by simpa using List.find?_some hfound
  have hown : brand.colorsFrom = none := Option.isNone_iff_eq_none.mp hpalette
  refine ⟨brand, hbrand, rfl, hown, ?_⟩
  rw [← Table.get?_eq_none_iff, get?_paletteInheritance valid.names_nodup hbrand, hown]

/-- A brand has effects itself, or the brand whose colors it takes over has them. -/
theorem hasEffectsOf_inherited (valid : p.config.Valid) {tokens : TokenSet}
    (heffects : tokens.effects = p.effectTokens) {brand : Brand}
    (hbrand : brand ∈ p.config.brands) :
    tokens.HasEffectsOf (brand.colorsFrom.getD brand.name) p.config.colorModes
      p.graph.effectStyles := by
  cases hcolors : brand.colorsFrom with
  | none => exact hasEffectsOf heffects hbrand (Option.isNone_iff_eq_none.mpr hcolors)
  | some owner =>
      obtain ⟨other, hother, rfl, hown, -⟩ := exists_owner valid
        ((get?_paletteInheritance valid.names_nodup hbrand).trans hcolors)
      exact hasEffectsOf heffects hother (Option.isNone_iff_eq_none.mpr hown)

/-! ## Token sets -/

/-- **Composites are complete and exact.**  A pipeline that was created builds one typography token
for each brand, breakpoint and text style and one effect token for each brand with a palette, color
mode and effect style, in the order of the configuration and of the export, and no others.  The
layers of an effect token show the visible shadows of the style.  Exactly the brands that take over
colors are listed as heirs, each with a brand that has a palette, is no heir and has all effects; so
every brand comes to all effects in at most one step. -/
theorem composites_of_create {source : Export} {config : Configuration} {options : Options}
    (created : create source config options = .ok p) :
    ∃ built, p.tokens = .ok built ∧
      built.value.typography = (config.brands.flatMap fun brand =>
        config.breakpoints.flatMap fun breakpoint => source.textStyles.map fun style =>
          { key := .ofBrandBreakpoint brand.name breakpoint.key
            styleId := style.id
            name := style.name
            typography :=
              (p.typographyOf (Cell.ofBrandBreakpoint brand breakpoint).context style).value }) ∧
      built.value.effects =
        ((config.brands.filter fun brand => brand.colorsFrom.isNone).flatMap fun brand =>
          config.colorModes.flatMap fun colorMode => source.effectStyles.map fun style =>
            { key := .ofBrandColorMode brand.name colorMode.key
              styleId := style.id
              name := style.name
              layers := style.shadows.map fun effect =>
                (p.shadow (Cell.ofBrandColorMode brand colorMode).context effect).value }) ∧
      (∀ context (effect : Effect), effect.IsShownBy (p.shadow context effect).value) ∧
      (∀ name, name ∈ built.value.paletteInheritance.keys ↔
        ∃ brand ∈ config.brands, brand.name = name ∧ brand.colorsFrom.isSome) ∧
      (∀ name owner, built.value.paletteInheritance.get? name = some owner →
        (∃ brand ∈ config.brands, brand.name = owner ∧ brand.colorsFrom = none) ∧
          owner ∉ built.value.paletteInheritance.keys ∧
          built.value.HasEffectsOf owner config.colorModes source.effectStyles) ∧
      ∀ brand ∈ config.brands,
        built.value.paletteInheritance.get? brand.name = brand.colorsFrom ∧
          built.value.HasEffectsOf
            ((built.value.paletteInheritance.get? brand.name).getD brand.name)
            config.colorModes source.effectStyles := by
  obtain ⟨valid, hgraph, rfl, -⟩ := create_eq_ok_iff.mp created
  obtain ⟨-, -, htext, heffect⟩ := Graph.ofExport_eq_ok hgraph
  obtain ⟨built, hbuilt, htypography, heffects, hinheritance⟩ := exists_composites_eq valid
  rw [← htext, ← heffect]
  refine ⟨built, hbuilt, ?typography, ?effects, isShownBy_shadow, ?heirs, ?owners, ?brands⟩
  case typography =>
    rw [htypography]
    simp only [typographyTokens, value_typographyIn]
    rfl
  case effects =>
    rw [heffects]
    simp only [effectTokens, value_effectsIn]
    rfl
  case heirs =>
    intro name
    rw [hinheritance]
    exact mem_keys_paletteInheritance_iff
  case owners =>
    rw [hinheritance]
    intro name owner hinherits
    -- by the checks of the configuration the owner is a brand that takes no colors over
    obtain ⟨brand, hbrand, rfl, hown, hkey⟩ := exists_owner valid hinherits
    exact ⟨⟨brand, hbrand, rfl, hown⟩, hkey,
      hasEffectsOf heffects hbrand (Option.isNone_iff_eq_none.mpr hown)⟩
  case brands =>
    intro brand hbrand
    rw [hinheritance, get?_paletteInheritance valid.names_nodup hbrand]
    exact ⟨rfl, hasEffectsOf_inherited valid heffects hbrand⟩

end Pipeline

/-! ## An heir and a style with shadows -/

namespace Sample

/-- Of these effects the first and the last are shadows that can be seen. -/
def raised : EffectStyle where
  id := "raised"
  name := "Raised"
  effects := [
    { type := .dropShadow, radius := 4 },
    { type := .layerBlur, radius := 8 },
    { type := .innerShadow, visible := false },
    { type := .innerShadow, bindings := { radius := some leading.id } }]

def styledSource : Export := { typesettingSource with effectStyles := [raised] }

def styled : Pipeline where
  graph := { typesetting.graph with effectStyles := [raised] }
  config := themed.config
  options := {}

theorem composites_of_styled :
    Pipeline.create styledSource styled.config {} = .ok styled ∧
      ∃ built, styled.tokens = .ok built ∧
        built.value.typography.map (fun token => (token.key.text, token.name)) = [
          ("core/small", "Body"), ("core/small", "Note"),
          ("core/large", "Body"), ("core/large", "Note"),
          ("heir/small", "Body"), ("heir/small", "Note"),
          ("heir/large", "Body"), ("heir/large", "Note")] ∧
        built.value.effects.map (fun token => (token.key.text, token.layers.map fun layer =>
            (layer.kind, layer.radius.value, layer.radius.boundTo?))) = [
          ("core/light", [(.drop, some 4, none), (.inner, some 24, some leading.id)]),
          ("core/dark", [(.drop, some 4, none), (.inner, some 24, some leading.id)])] ∧
        built.value.paletteInheritance.get? "heir" = some "core" ∧
        "core" ∉ built.value.paletteInheritance.keys ∧
        built.value.HasEffectsOf "core" styled.config.colorModes [raised] := by
  have hcreated : Pipeline.create styledSource styled.config {} = .ok styled :=
    Pipeline.create_eq_ok_iff.mpr
      ⟨Configuration.validate_eq_ok_iff.mp (by decide +kernel), by decide +kernel, rfl, rfl⟩
  obtain ⟨built, hbuilt, htypography, heffects, -, -, howners, hbrands⟩ :=
    Pipeline.composites_of_create hcreated
  have hheir : built.value.paletteInheritance.get? "heir" = some "core" :=
    (hbrands { name := "heir", colorsFrom := some "core" } (by decide)).1
  obtain ⟨-, hcore, hreached⟩ := howners "heir" "core" hheir
  refine ⟨hcreated, built, hbuilt, ?_, ?_, hheir, hcore, hreached⟩
  · rw [htypography]
    decide +kernel
  · rw [heffects]
    decide +kernel

end Sample

end DesignTokens
