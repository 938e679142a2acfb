import DesignTokens.Variable

/-!
# Exports

An `Export` is what the design tool hands over: collections, variables, text styles and effect
styles as they are declared, before anything about them is checked.
-/

namespace DesignTokens

/-! ## Text styles -/

structure FontName where
  family : String
  /-- The combined style, such as `Bold Italic`. -/
  style : String
  deriving DecidableEq, Inhabited

inductive LengthUnit where
  | pixels
  | percent
  | auto
  deriving DecidableEq, Inhabited

structure Length where
  unit : LengthUnit
  value : Option Binary64 := none
  deriving DecidableEq, Inhabited

/-- The variables that the properties of a text style are bound to. -/
structure TextBindings where
  fontFamily : Option VariableId := none
  fontWeight : Option VariableId := none
  fontStyle : Option VariableId := none
  fontSize : Option VariableId := none
  lineHeight : Option VariableId := none
  letterSpacing : Option VariableId := none
  deriving DecidableEq, Inhabited

structure TextStyle where
  id : String
  name : String
  fontName : Option FontName := none
  fontSize : Option Binary64 := none
  lineHeight : Option Length := none
  letterSpacing : Option Length := none
  textCase : Option String := none
  textDecoration : Option String := none
  bindings : TextBindings := {}
  deriving DecidableEq, Inhabited

/-! ## Effect styles -/

inductive EffectType where
  | dropShadow
  | innerShadow
  | layerBlur
  | backgroundBlur
  deriving DecidableEq, Inhabited

structure Offset where
  x : Binary64
  y : Binary64
  deriving DecidableEq, Inhabited

/-- The variables that the properties of an effect are bound to. -/
structure EffectBindings where
  color : Option VariableId := none
  offsetX : Option VariableId := none
  offsetY : Option VariableId := none
  radius : Option VariableId := none
  spread : Option VariableId := none
  deriving DecidableEq, Inhabited

structure Effect where
  type : EffectType
  visible : Bool := true
  color : Option Rgba := none
  offset : Offset := ⟨0, 0⟩
  radius : Binary64 := 0
  spread : Binary64 := 0
  blendMode : Option String := none
  bindings : EffectBindings := {}
  deriving DecidableEq, Inhabited

def Effect.isShadow (effect : Effect) : Bool :=
  match effect.type with
  | .dropShadow | .innerShadow => true
  | .layerBlur | .backgroundBlur => false

structure EffectStyle where
  id : String
  name : String
  effects : List Effect := []
  deriving DecidableEq, Inhabited

/-! ## The whole -/

structure Export where
  collections : List CollectionDeclaration := []
  /-- The variables. -/
  nodes : List Variable := []
  textStyles : List TextStyle := []
  effectStyles : List EffectStyle := []
  deriving DecidableEq, Inhabited

end DesignTokens
