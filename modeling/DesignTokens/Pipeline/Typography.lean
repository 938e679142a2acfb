import DesignTokens.FontStyle
import DesignTokens.Pipeline.Basic

/-!
# Typography composites

Each text style becomes one token in each cell of brand and breakpoint.  A property takes the value
of the variable that it is bound to; if that is none, or there is no binding, it takes what the
style itself says, from its own fields or from the name of its font.

A weight is sometimes bound in the place of the font style, as the name of the variable tells.
`Typography.moveWeight` puts it where it belongs.
-/

namespace DesignTokens

/-- A length in pixels.  A percentage is one of the font size. -/
def Length.pixels? (length : Length) (fontSize : Option Binary64) : Option Binary64 :=
  match length.unit with
  | .pixels => length.value.map Binary64.toHundredths
  | .percent => do
    let percentage ← length.value
    let size ← fontSize
    return (percentage / 100 * size).toHundredths
  | .auto => none

/-- A font style that is bound to a variable with a weight is taken apart: the slant stays, the
weight and the binding move to the font weight.  A font weight that is bound itself keeps its
binding, and its value if it has one. -/
def Typography.moveWeight (t : Typography) : Typography :=
  match t.fontStyle.binding with
  | none => t
  | some binding =>
    if namesWeight binding.path then
      let style := FontStyle.ofText (t.fontStyle.value.getD "")
      { t with
        fontStyle := .literal style.slant
        fontWeight :=
          if t.fontWeight.isBound then t.fontWeight.orElse style.weight
          else .bound (style.weight.or t.fontWeight.value) binding }
    else t

namespace Pipeline

variable (p : Pipeline)

/-- A property with the value of a binding, if there is one, or else a literal value. -/
def boundOr {α : Type} (bind : VariableId → Logged (Property α)) (id : Option VariableId)
    (literal : Option α) : Logged (Property α) :=
  match id with
  | some id => do
    let property ← bind id
    return property.orElse literal
  | none => pure { value := literal }

/-- A font weight that is bound to a variable, which holds a number or the word for a weight. -/
def bindWeight (context : Context) (flags : Acceptance) (id : VariableId) :
    Logged (Property Binary64) := do
  let (value, binding) ← p.bind context flags id
  return .bound (value.float?.or (value.text?.bind FontWeight.ofText?)) binding

/-- The composite of a text style. -/
def typographyOf (context : Context) (style : TextStyle) : Logged Typography := do
  let sized := p.options.typography
  let plain := { sized with componentBreakpoint := false }
  let named := style.fontName.map fun font => FontStyle.ofText font.style
  let fontFamily ← boundOr (p.bindText context plain) style.bindings.fontFamily
    (style.fontName.map FontName.family)
  let fontWeight ← boundOr (p.bindWeight context plain) style.bindings.fontWeight
    (named.bind FontStyle.weight)
  let fontStyle ← boundOr (p.bindText context plain) style.bindings.fontStyle
    (named.map FontStyle.slant)
  let fontSize ← boundOr (p.bindNumber context sized) style.bindings.fontSize
    (style.fontSize.map Binary64.toHundredths)
  let lineHeight ← boundOr (p.bindNumber context sized) style.bindings.lineHeight
    (style.lineHeight.bind fun length => length.pixels? fontSize.value)
  let letterSpacing ← boundOr (p.bindNumber context plain) style.bindings.letterSpacing
    (style.letterSpacing.bind fun length => length.pixels? fontSize.value)
  let typography : Typography := {
    fontFamily, fontWeight, fontSize, lineHeight, letterSpacing, fontStyle
    textCase := { value := style.textCase }
    textDecoration := { value := style.textDecoration } }
  return typography.moveWeight

/-- The typography tokens of a cell. -/
def typographyIn (cell : Cell) : Logged (List TypographyToken) :=
  .forList p.graph.textStyles fun style => do
    let typography ← p.typographyOf cell.context style
    return ⟨cell.key, style.id, style.name, typography⟩

/-- All text styles in all cells of brand and breakpoint. -/
def typography : Except ConfigurationProblem (Logged (List TypographyToken)) := do
  let cells ← p.breakpointCells
  return List.flatten <$> Logged.forList cells p.typographyIn

end Pipeline

end DesignTokens
