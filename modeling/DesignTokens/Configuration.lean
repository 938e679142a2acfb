import DesignTokens.Collection

/-!
# Axis configurations

A configuration lists the brands and, for each other axis, which logical key stands for which mode.
A brand may take its colors from another one; it has no palette of its own then.

`validate` accepts a configuration in which names and keys say one thing each and colors are taken
from brands with a palette; `context` translates the keys of a cell.
-/

namespace DesignTokens

structure Brand where
  name : String
  /-- The brand whose colors are taken over. -/
  colorsFrom : Option String := none
  deriving DecidableEq, Inhabited

def Brand.hasPalette (brand : Brand) : Bool := brand.colorsFrom.isNone

/-- A logical key of an axis and the mode that it stands for. -/
structure AxisMode where
  key : String
  mode : ModeId
  deriving DecidableEq, Inhabited

/-- A kind that takes the place of the one suggested by the name of a collection. -/
structure KindOverride where
  name : String
  kind : CollectionKind
  deriving DecidableEq, Inhabited

structure Configuration where
  brands : List Brand
  breakpoints : List AxisMode := []
  colorModes : List AxisMode := []
  densities : List AxisMode := []
  collections : List KindOverride := []
  deriving DecidableEq, Inhabited

/-- The axes whose modes have logical keys. -/
inductive KeyedAxis where
  | breakpoint
  | colorMode
  | density
  deriving DecidableEq

def KeyedAxis.text : KeyedAxis → String
  | .breakpoint => "breakpoint"
  | .colorMode => "color mode"
  | .density => "density"

/-- What is wrong with a configuration, or with keys that are looked up in one. -/
inductive ConfigurationProblem where
  | repeatedBrand (name : String)
  | repeatedKey (axis : KeyedAxis) (key : String)
  | inheritsFromUnknown (brand source : String)
  | inheritsFromHeir (brand source : String)
  | unknownBrand (name : String)
  | unknownKey (axis : KeyedAxis) (key : String)
  /-- A problem that somebody else found and put into words. -/
  | stated (text : String)
  deriving DecidableEq

open Text in
def ConfigurationProblem.message : ConfigurationProblem → String
  | .repeatedBrand name => "brand " ++ quote name ++ " listed twice"
  | .repeatedKey axis key => axis.text ++ " key " ++ quote key ++ " listed twice"
  | .inheritsFromUnknown brand source =>
    "brand " ++ quote brand ++ " inherits colors from unknown brand " ++ quote source
  | .inheritsFromHeir brand source =>
    "brand " ++ quote brand ++ " inherits colors from " ++ quote source
      ++ ", which has no palette of its own"
  | .unknownBrand name => "unknown brand " ++ quote name
  | .unknownKey axis key => "unknown " ++ axis.text ++ " key " ++ quote key
  | .stated text => text

namespace Configuration

/-- The least text that occurs more than once. -/
def leastRepeated? (texts : List String) : Option String :=
  ((texts.filter fun text => 1 < texts.count text).mergeSort fun a b => (compare a b).isLE).head?

def brand? (config : Configuration) (name : String) : Option Brand :=
  config.brands.find? fun brand => brand.name == name

/-- The modes of an axis. -/
def modes (config : Configuration) : KeyedAxis → List AxisMode
  | .breakpoint => config.breakpoints
  | .colorMode => config.colorModes
  | .density => config.densities

/-! ## Validity -/

def checkBrandNames (config : Configuration) : Except ConfigurationProblem Unit :=
  match leastRepeated? (config.brands.map Brand.name) with
  | some name => .error (.repeatedBrand name)
  | none => .ok ()

def checkKeys (config : Configuration) (axis : KeyedAxis) : Except ConfigurationProblem Unit :=
  match leastRepeated? ((config.modes axis).map AxisMode.key) with
  | some key => .error (.repeatedKey axis key)
  | none => .ok ()

/-- Colors are taken from a listed brand that owns its palette. -/
def checkInheritance (config : Configuration) (brand : Brand) : Except ConfigurationProblem Unit :=
  match brand.colorsFrom with
  | none => .ok ()
  | some source => match config.brand? source with
    | none => .error (.inheritsFromUnknown brand.name source)
    | some owner =>
      if owner.hasPalette then .ok () else .error (.inheritsFromHeir brand.name source)

def validate (config : Configuration) : Except ConfigurationProblem Unit := do
  config.checkBrandNames
  config.checkKeys .breakpoint
  config.checkKeys .colorMode
  config.checkKeys .density
  config.brands.forM config.checkInheritance

/-! ## Look-up -/

/-- The brands that own a palette. -/
def brandsWithPalette (config : Configuration) : List Brand := config.brands.filter Brand.hasPalette

/-- The mode that a key stands for; an open axis stays open. -/
def mode? (config : Configuration) (axis : KeyedAxis) :
    Option String → Except ConfigurationProblem (Option ModeId)
  | none => .ok none
  | some key => match (config.modes axis).find? fun mode => mode.key == key with
    | some mode => .ok (some mode.mode)
    | none => .error (.unknownKey axis key)

/-- The context of a cell. -/
def context (config : Configuration) (key : CellKey) : Except ConfigurationProblem Context := do
  if let some name := key.brand then
    if (config.brand? name).isNone then throw (.unknownBrand name)
  return {
    brandName := key.brand
    breakpoint := ← config.mode? .breakpoint key.breakpoint
    colorMode := ← config.mode? .colorMode key.colorMode
    density := ← config.mode? .density key.density }

end Configuration

end DesignTokens
