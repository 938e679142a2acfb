import DesignTokens.Export
import DesignTokens.Graph.Endpoint

/-!
# Composite tokens

A composite has several properties.  Each is a value, a binding to a variable, or both: a bound
property has the value of its variable, and one that comes to none may still have another.
-/

namespace DesignTokens

/-- The variable that a property is bound to. -/
structure Binding where
  id : VariableId
  path : String
  endpoint : Option Endpoint := none
  deriving DecidableEq, Inhabited

structure Property (α : Type) where
  value : Option α := none
  binding : Option Binding := none
  deriving DecidableEq, Inhabited

namespace Property

variable {α : Type}

def unset : Property α := {}

def literal (value : α) : Property α := { value := some value }

def bound (value : Option α) (binding : Binding) : Property α := ⟨value, some binding⟩

def isBound (p : Property α) : Bool := p.binding.isSome

/-- The property with another value if it has none. -/
def orElse (p : Property α) (fallback : Option α) : Property α :=
  { p with value := p.value.or fallback }

def boundTo? (p : Property α) : Option VariableId := p.binding.map Binding.id

end Property

/-! ## Typography -/

structure Typography where
  fontFamily : Property String := {}
  fontWeight : Property Binary64 := {}
  /-- In pixels. -/
  fontSize : Property Binary64 := {}
  /-- In pixels. -/
  lineHeight : Property Binary64 := {}
  letterSpacing : Property Binary64 := {}
  /-- `normal` or `italic`. -/
  fontStyle : Property String := {}
  textCase : Property String := {}
  textDecoration : Property String := {}
  deriving DecidableEq, Inhabited

/-- Line height by font size, to three decimals, if both are known and the size is positive. -/
def Typography.ratio? (t : Typography) : Option Binary64 := do
  let size ← t.fontSize.value
  let height ← t.lineHeight.value
  if size ≤ 0 then none else some (height / size).toThousandths

structure TypographyToken where
  key : CellKey
  styleId : String
  name : String
  typography : Typography
  deriving DecidableEq, Inhabited

/-! ## Effects -/

inductive ShadowKind where
  | drop
  | inner
  deriving DecidableEq, Inhabited

structure ShadowLayer where
  kind : ShadowKind
  color : Property String := {}
  offsetX : Property Binary64 := {}
  offsetY : Property Binary64 := {}
  radius : Property Binary64 := {}
  spread : Property Binary64 := {}
  blendMode : String
  deriving DecidableEq, Inhabited

def ShadowLayer.isInset (layer : ShadowLayer) : Bool := layer.kind == .inner

structure EffectToken where
  key : CellKey
  styleId : String
  name : String
  layers : List ShadowLayer
  deriving DecidableEq, Inhabited

end DesignTokens
