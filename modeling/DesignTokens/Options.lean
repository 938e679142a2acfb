import DesignTokens.Finding
import DesignTokens.Collection

/-!
# Options of a run

`Acceptance` says at which layers a chain of aliases may be cut off, so that the variable there is
referred to instead of being inlined.  Primitives are always accepted.
-/

namespace DesignTokens

/-- The layers besides the primitives at which a chain may be cut off. -/
structure Acceptance where
  /-- Semantic layers, at variables that are not component-scoped. -/
  semantic : Bool := false
  density : Bool := false
  /-- The breakpoint layer, at component-scoped variables. -/
  componentBreakpoint : Bool := false
  deriving DecidableEq, Inhabited

namespace Acceptance

def primitives : Acceptance := {}

def all : Acceptance := ⟨true, true, true⟩

def densityOnly : Acceptance := { density := true }

/-- Whether a variable of a layer is accepted. -/
def accepts (flags : Acceptance) (kind : CollectionKind) (isScoped : Bool) : Bool :=
  match kind with
  | .primitive => true
  | .semantic axis =>
    if isScoped then axis == .breakpoint && flags.componentBreakpoint else flags.semantic
  | .density => flags.density
  | .brandMapping _ | .component => false

end Acceptance

structure RatioOptions where
  /-- Whether a line height may take the ratio of composites with the same line height. -/
  valuePattern : Bool := true
  deriving DecidableEq, Inhabited

/-- The kinds of finding that make a run fail. -/
structure Policy where
  fatal : List FindingKind := []
  deriving DecidableEq, Inhabited

/-- The policy under which no value may be unresolved. -/
def Policy.strict : Policy := ⟨[.missingVariable, .circularReference, .noValueForMode]⟩

structure Options where
  /-- How the paths of component variables begin. -/
  componentPrefix : String := "Component/"
  /-- Where the properties of typography composites are cut off. -/
  typography : Acceptance := { semantic := true, componentBreakpoint := true }
  /-- Where the properties of effect composites are cut off. -/
  effects : Acceptance := { semantic := true }
  /-- Where standalone tokens are cut off. -/
  tokens : Acceptance := { semantic := true, density := true }
  ratios : RatioOptions := {}
  policy : Policy := {}
  deriving DecidableEq, Inhabited

end DesignTokens
