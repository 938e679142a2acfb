import DesignTokens.Table

/-!
# Axes

Token values vary along four axes: brand, breakpoint, color mode and density.

* A `Context` fixes a choice on each axis in the terms of the export: the brand by its name, the
  other axes by the id of a mode.
* A `CellKey` fixes it in the terms of the configuration, by logical keys such as `lg` or `dark`.

An axis may be left open in both.
-/

namespace DesignTokens

inductive Axis where
  | brand
  | breakpoint
  | colorMode
  | density
  deriving DecidableEq

/-- The name of an axis in written forms. -/
def Axis.name : Axis → String
  | .brand => "brand"
  | .breakpoint => "breakpoint"
  | .colorMode => "color_mode"
  | .density => "density"

/-- Names a mode of a collection. -/
structure ModeId where
  text : String
  deriving DecidableEq

instance : Inhabited ModeId := ⟨⟨""⟩⟩

namespace ModeId

instance : Ord ModeId := ⟨compareOn ModeId.text⟩

instance : Std.TransOrd ModeId := inferInstanceAs (Std.TransCmp (compareOn ModeId.text))

instance : Std.LawfulEqOrd ModeId :=
  lawfulEqCmp_compareOn fun {a b} h => by cases a; cases b; cases h; rfl

end ModeId

/-! ## Contexts -/

/-- Which mode to take on each axis. -/
structure Context where
  brandName : Option String := none
  breakpoint : Option ModeId := none
  colorMode : Option ModeId := none
  density : Option ModeId := none
  deriving DecidableEq, Inhabited

namespace Context

/-- The context that leaves every axis open. -/
def unspecified : Context := {}

def withBrand (context : Context) (name : String) : Context :=
  { context with brandName := some name }

def withBreakpoint (context : Context) (mode : ModeId) : Context :=
  { context with breakpoint := some mode }

def withColorMode (context : Context) (mode : ModeId) : Context :=
  { context with colorMode := some mode }

def withDensity (context : Context) (mode : ModeId) : Context :=
  { context with density := some mode }

/-- The mode of an axis.  Brands have names and no mode of their own. -/
def mode? (context : Context) : Axis → Option ModeId
  | .brand => none
  | .breakpoint => context.breakpoint
  | .colorMode => context.colorMode
  | .density => context.density

end Context

/-! ## Cells -/

/-- The logical keys of one cell of a matrix. -/
structure CellKey where
  brand : Option String := none
  breakpoint : Option String := none
  colorMode : Option String := none
  density : Option String := none
  deriving DecidableEq, Inhabited

namespace CellKey

def ofBrandBreakpoint (brand breakpoint : String) : CellKey :=
  { brand := some brand, breakpoint := some breakpoint }

def ofBrandColorMode (brand colorMode : String) : CellKey :=
  { brand := some brand, colorMode := some colorMode }

/-- The keys that are set, in the order of the axes. -/
def parts (key : CellKey) : List String :=
  [key.brand, key.breakpoint, key.colorMode, key.density].filterMap id

/-- The keys that are set with slashes between them, or a star if there are none. -/
def text (key : CellKey) : String :=
  if key.parts.isEmpty then "*" else String.intercalate "/" key.parts

/-- Cells are ordered by their keys, axis by axis; an open axis comes first. -/
instance : Ord CellKey :=
  ⟨compareLex (compareOn CellKey.brand) <| compareLex (compareOn CellKey.breakpoint) <|
    compareLex (compareOn CellKey.colorMode) (compareOn CellKey.density)⟩

instance : Std.TransOrd CellKey :=
  inferInstanceAs <| Std.TransCmp <|
    compareLex (compareOn CellKey.brand) <| compareLex (compareOn CellKey.breakpoint) <|
      compareLex (compareOn CellKey.colorMode) (compareOn CellKey.density)

instance : Std.LawfulEqOrd CellKey := .mk fun {a b} h => by
  replace h : compareLex (compareOn CellKey.brand) (compareLex (compareOn CellKey.breakpoint)
    (compareLex (compareOn CellKey.colorMode) (compareOn CellKey.density))) a b = .eq := h
  simp only [compareLex_eq_eq, compareOn, Std.compare_eq_iff_eq] at h
  cases a
  cases b
  simp_all

/-- Whether the cell is one of brand and breakpoint, for which line-height ratios are sought. -/
def mayHaveRatios (key : CellKey) : Bool :=
  key.brand.isSome && key.breakpoint.isSome && key.colorMode.isNone

theorem mayHaveRatios_iff {key : CellKey} : key.mayHaveRatios ↔
    (∃ brand, key.brand = some brand) ∧ (∃ breakpoint, key.breakpoint = some breakpoint) ∧
      key.colorMode = none := by
  simp [mayHaveRatios, Option.isSome_iff_exists, and_assoc]

end CellKey

end DesignTokens
