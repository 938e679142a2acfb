import DesignTokens.Pipeline.Basic

/-!
# Effect composites

Each effect style becomes one token in each cell of color mode and brand with a palette.  Its layers
are the visible shadows of the style; blurs have no token form.
-/

namespace DesignTokens.Pipeline

variable (p : Pipeline)

/-- A dimension, bound to a variable or as the style has it. -/
def dimension (context : Context) (id : Option VariableId) (literal : Binary64) :
    Logged (Property Binary64) :=
  match id with
  | some id => p.bindNumber context p.options.effects id
  | none => pure (.literal literal.toHundredths)

/-- The layer of a shadow. -/
def shadow (context : Context) (effect : Effect) : Logged ShadowLayer := do
  let color ← match effect.bindings.color with
    | some id => p.bindText context p.options.effects id
    | none => pure { value := effect.color.map Rgba.text }
  let offsetX ← p.dimension context effect.bindings.offsetX effect.offset.x
  let offsetY ← p.dimension context effect.bindings.offsetY effect.offset.y
  let radius ← p.dimension context effect.bindings.radius effect.radius
  let spread ← p.dimension context effect.bindings.spread effect.spread
  return {
    kind := if effect.type == .innerShadow then .inner else .drop
    color, offsetX, offsetY, radius, spread
    blendMode := effect.blendMode.getD "NORMAL" }

/-- The token of an effect style. -/
def effectOf (cell : Cell) (style : EffectStyle) : Logged EffectToken := do
  let shadows := style.effects.filter fun effect => effect.visible && effect.isShadow
  let layers ← Logged.forList shadows (p.shadow cell.context)
  return ⟨cell.key, style.id, style.name, layers⟩

/-- The effect tokens of a cell. -/
def effectsIn (cell : Cell) : Logged (List EffectToken) :=
  .forList p.graph.effectStyles (p.effectOf cell)

/-- All effect styles in all cells of color mode and brand with a palette. -/
def effects : Except ConfigurationProblem (Logged (List EffectToken)) := do
  let cells ← p.colorCells
  return List.flatten <$> Logged.forList cells p.effectsIn

end DesignTokens.Pipeline
