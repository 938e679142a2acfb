import DesignTokens.Graph

/-!
# Choosing a mode

Which entry of a variable a context reads.  The preferred mode of the collection depends on its
kind: a brand mapping prefers the mode named after the brand, a layer with an axis the mode of the
context on that axis, and anything else, or an axis that is left open, the first mode.  A variable
without an entry there is read at the first mode that has one.
-/

namespace DesignTokens

/-- The entry of a variable that is read. -/
structure Selection where
  mode : ModeId
  entry : Entry
  /-- Whether the preferred mode holds no entry. -/
  fellBack : Bool
  deriving DecidableEq

namespace Collection

/-- The mode that a context names, if it is one of the collection. -/
def chosenMode? (c : Collection) (context : Context) : Option Mode :=
  match c.kind with
  | .brandMapping _ => context.brandName.bind c.modeByName?
  | kind => (kind.modeAxis?.bind context.mode?).bind c.modeById?

def preferredMode? (c : Collection) (context : Context) : Option ModeId :=
  ((c.chosenMode? context).or c.defaultMode?).map Mode.id

/-- The entry of the first mode that has one. -/
def firstEntry? (c : Collection) (v : Variable) : Option Selection :=
  c.modes.findSome? fun mode => (v.entry? mode.id).map fun entry => ⟨mode.id, entry, true⟩

/-- The entry of a variable of the collection that a context reads. -/
def select? (c : Collection) (v : Variable) (context : Context) : Option Selection :=
  let preferred := (c.preferredMode? context).bind fun mode =>
    (v.entry? mode).map fun entry => ⟨mode, entry, false⟩
  preferred.or (c.firstEntry? v)

end Collection

/-- The entry of a variable that a context reads. -/
def Graph.entry? (g : Graph) (context : Context) (v : Variable) : Option Entry :=
  (g.collection? v.collection).bind fun c => (c.select? v context).map Selection.entry

end DesignTokens
