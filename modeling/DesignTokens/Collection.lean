import DesignTokens.Axis
import DesignTokens.Text.Path

/-!
# Collections

A collection groups variables that share one list of modes.  Its `CollectionKind` says which layer
of the design it is, and so how a mode is chosen from a context.
-/

namespace DesignTokens

structure CollectionId where
  text : String
  deriving DecidableEq

instance : Inhabited CollectionId := ⟨⟨""⟩⟩

namespace CollectionId

instance : Ord CollectionId := ⟨compareOn text⟩

instance : Std.TransOrd CollectionId := inferInstanceAs (Std.TransCmp (compareOn text))

instance : Std.LawfulEqOrd CollectionId :=
  lawfulEqCmp_compareOn fun {a b} h => by cases a; cases b; cases h; rfl

end CollectionId

structure Mode where
  id : ModeId
  name : String
  deriving DecidableEq, Inhabited

inductive CollectionKind where
  /-- Palette and scale values. -/
  | primitive
  /-- A layer that varies along one axis. -/
  | semantic (axis : Axis)
  | density
  /-- An indirection with one mode for each brand, named after the brand. -/
  | brandMapping (axis : Axis)
  /-- Any other collection. -/
  | component
  deriving DecidableEq

instance : Inhabited CollectionKind := ⟨.component⟩

namespace CollectionKind

/-- The letters and digits of a name, lowered. -/
def squash (name : String) : String :=
  String.ofList ((name.toList.filter Char.isAlphanum).map Char.toLower)

/-- The kind that a display name suggests.  Brand mappings come before the axes, whose words their
names contain. -/
def ofName (name : String) : CollectionKind :=
  let has (word : String) : Bool := Text.contains (squash name) word
  if Text.startsWith name "_" || has "primitive" then .primitive
  else if has "brand" && has "color" then .brandMapping .colorMode
  else if has "brand" && (has "token" || has "mapping") then .brandMapping .breakpoint
  else if has "colormode" then .semantic .colorMode
  else if has "breakpoint" then .semantic .breakpoint
  else if has "density" then .density
  else .component

/-- The axis whose mode id chooses a mode.  A brand mapping chooses by name and has none. -/
def modeAxis? : CollectionKind → Option Axis
  | .semantic axis => some axis
  | .density => some .density
  | .primitive | .brandMapping _ | .component => none

/-- A kind as one word. -/
def label : CollectionKind → String
  | .primitive => "primitive"
  | .semantic axis => "semantic:" ++ axis.name
  | .density => "density"
  | .brandMapping axis => "brand_mapping:" ++ axis.name
  | .component => "component"

/-- Whether the layer is referred to by name where it is reached, apart from the primitives. -/
def isSymbolic : CollectionKind → Bool
  | .semantic _ | .density => true
  | .primitive | .brandMapping _ | .component => false

end CollectionKind

/-- A collection as an export declares it. -/
structure CollectionDeclaration where
  id : CollectionId
  name : String
  modes : List Mode
  deriving DecidableEq, Inhabited

structure Collection where
  id : CollectionId
  name : String
  kind : CollectionKind
  /-- The modes in the order of declaration; the first is the default. -/
  modes : List Mode
  deriving DecidableEq, Inhabited

namespace Collection

def defaultMode? (c : Collection) : Option Mode := c.modes.head?

def modeById? (c : Collection) (id : ModeId) : Option Mode := c.modes.find? fun m => m.id == id

def modeByName? (c : Collection) (name : String) : Option Mode :=
  c.modes.find? fun m => m.name == name

def hasMode (c : Collection) (id : ModeId) : Bool := (c.modeById? id).isSome

end Collection

end DesignTokens
