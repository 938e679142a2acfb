import DesignTokens.Graph.Trail
import DesignTokens.Value

/-!
# Resolving variables

`resolve` follows the aliases that a context selects, from a variable to the literal at the end of
the chain.  A chain can also end without a literal: at a variable that does not exist, at one that
the walk came through before, or at one without entries.  Each of these gives a value that says so,
and one finding.
-/

namespace DesignTokens

/-- The value of a variable and the variables that the walk came through. -/
structure Resolution where
  value : Value
  chain : Trail
  deriving DecidableEq

namespace Graph

variable (g : Graph) (context : Context)

/-- The variable that a walk came from, for findings. -/
def origin (trail : Trail) : String :=
  match trail.getLast? with
  | some id => g.pathOf id
  | none => "<root>"

/-- A chain that leads back to one of its variables. -/
def circularFinding (trail : Trail) (id : VariableId) : Finding :=
  ⟨.circularReference, g.pathOf id, g.describe trail id⟩

/-- A chain that leads to a variable that does not exist. -/
def missingFinding (trail : Trail) (id : VariableId) : Finding :=
  ⟨.missingVariable, id.text, "referenced from " ++ g.origin trail⟩

/-- A chain that leads to a variable without entries. -/
def emptyFinding (v : Variable) : Finding :=
  ⟨.noValueForMode, v.path, "no mode of the owning collection holds an entry"⟩

/-- Resolve a variable at the end of a trail. -/
def resolveFrom (trail : Trail) (id : VariableId) : Logged Resolution :=
  if visited : id ∈ trail then
    .note ⟨.unresolved .circularReference, trail⟩ (g.circularFinding trail id)
  else
    match found : g.find? id with
    | none => .note ⟨.unresolved .missingVariable, trail⟩ (g.missingFinding trail id)
    | some v =>
      have := unvisited_lt visited found
      match g.entry? context v with
      | none => .note ⟨.unresolved .noValueForMode, trail ++ [id]⟩ (emptyFinding v)
      | some (.literal literal) => pure ⟨literal.value v.type, trail ++ [id]⟩
      | some (.alias target) => resolveFrom (trail ++ [id]) target
termination_by g.unvisited trail

/-- Resolve a variable. -/
def resolve (id : VariableId) : Logged Resolution := g.resolveFrom context [] id

/-- The value of a variable. -/
def value (id : VariableId) : Logged Value := do
  let resolution ← g.resolve context id
  return resolution.value

end Graph

end DesignTokens
