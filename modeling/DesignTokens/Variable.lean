import DesignTokens.Collection
import DesignTokens.Number.Binary64

/-!
# Variables

A variable holds an `Entry` for some of the modes of its collection: a literal, or an alias, which
is the id of another variable.
-/

namespace DesignTokens

structure VariableId where
  text : String
  deriving DecidableEq

instance : Inhabited VariableId := ⟨⟨""⟩⟩

namespace VariableId

instance : Ord VariableId := ⟨compareOn text⟩

instance : Std.TransOrd VariableId := inferInstanceAs (Std.TransCmp (compareOn text))

instance : Std.LawfulEqOrd VariableId :=
  lawfulEqCmp_compareOn fun {a b} h => by cases a; cases b; cases h; rfl

end VariableId

inductive VariableType where
  | color
  | float
  | string
  | boolean
  deriving DecidableEq, Inhabited

/-- A color by its channels, each from zero to one. -/
structure Rgba where
  r : Binary64
  g : Binary64
  b : Binary64
  a : Binary64 := 1
  deriving DecidableEq, Inhabited

inductive Literal where
  | color (channels : Rgba)
  | bool (b : Bool)
  | number (x : Binary64)
  | text (s : String)
  deriving DecidableEq, Inhabited

inductive Entry where
  | literal (value : Literal)
  | alias (target : VariableId)
  deriving DecidableEq, Inhabited

/-- The variable that an entry refers to. -/
def Entry.target? : Entry → Option VariableId
  | .literal _ => none
  | .alias target => some target

structure Variable where
  id : VariableId
  /-- The slash-delimited name. -/
  path : String
  collection : CollectionId
  type : VariableType
  entries : Table ModeId Entry
  deriving DecidableEq, Inhabited

namespace Variable

def leaf (v : Variable) : String := Text.leaf v.path

def entry? (v : Variable) (mode : ModeId) : Option Entry := v.entries.get? mode

/-- Whether the path begins with the prefix of component variables.  No variable does if that prefix
is empty. -/
def isScoped (v : Variable) (componentPrefix : String) : Bool :=
  !componentPrefix.isEmpty && Text.startsWith v.path componentPrefix

theorem isScoped_iff {v : Variable} {componentPrefix : String} :
    v.isScoped componentPrefix ↔
      componentPrefix ≠ "" ∧ ∃ rest, v.path = componentPrefix ++ rest := by
  rw [isScoped, Bool.and_eq_true, Text.startsWith_iff, Bool.not_eq_true', ← Bool.not_eq_true,
    String.isEmpty_iff]

end Variable

end DesignTokens
