import DesignTokens.Graph.Resolution
import DesignTokens.Options

/-!
# Endpoints

A chain of aliases may be cut off at a variable of a stable layer, to which generated code then
refers by name.  `endpoint` walks the chain of a variable and stops at the first variable after the
start that its `Stops` accept; `endpointOfReference` starts one step earlier, at a reference to
the variable, which may be accepted itself.

The walk selects entries as resolving does, but it never looks at a variable behind the endpoint.
-/

namespace DesignTokens

/-- A variable that is referred to by name. -/
structure Endpoint where
  kind : CollectionKind
  id : VariableId
  path : String
  leaf : String
  deriving DecidableEq, Inhabited

namespace Endpoint

def ofVariable (kind : CollectionKind) (v : Variable) : Endpoint := ⟨kind, v.id, v.path, v.leaf⟩

/-- Whether the endpoint is in a layer that varies. -/
def isSymbolic (endpoint : Endpoint) : Bool := endpoint.kind.isSymbolic

end Endpoint

/-- Where walks stop. -/
structure Stops where
  flags : Acceptance
  /-- How the paths of component variables begin. -/
  componentPrefix : String
  deriving DecidableEq

namespace Graph

variable (g : Graph) (context : Context) (stops : Stops)

/-- The kind of a variable at which a walk stops. -/
def acceptedKind? (v : Variable) : Option CollectionKind :=
  (g.kind? v).filter fun kind => stops.flags.accepts kind (v.isScoped stops.componentPrefix)

/-- The first accepted variable behind `current`, which is the last of the trail. -/
def endpointFrom (trail : Trail) (current : Variable) : Logged (Option Endpoint) :=
  match g.entry? context current with
  | none | some (.literal _) => pure none
  | some (.alias target) =>
    if visited : target ∈ trail then .note none (g.circularFinding trail target)
    else
      match found : g.find? target with
      | none => .note none ⟨.missingVariable, target.text, "referenced from " ++ current.path⟩
      | some next =>
        match g.acceptedKind? stops next with
        | some kind => pure (some (.ofVariable kind next))
        | none =>
          have := unvisited_lt visited found
          endpointFrom (trail ++ [target]) next
termination_by g.unvisited trail

/-- The endpoint of the chain of a variable.  The variable itself is none. -/
def endpoint (id : VariableId) : Logged (Option Endpoint) :=
  match g.find? id with
  | none => .note none ⟨.missingVariable, id.text, "classification start"⟩
  | some v => g.endpointFrom context stops [id] v

/-- The endpoint of a chain that begins with a reference to a variable. -/
def endpointOfReference (id : VariableId) : Logged (Option Endpoint) :=
  match g.find? id with
  | none => .note none ⟨.missingVariable, id.text, "bound by a composite style"⟩
  | some v => match g.acceptedKind? stops v with
    | some kind => pure (some (.ofVariable kind v))
    | none => g.endpoint context stops id

/-- Whether the chain of a variable reaches the density layer before any primitive.  Neither layer
asks how a path begins. -/
def reachesDensity (id : VariableId) : Logged Bool := do
  let endpoint ← g.endpoint context ⟨.densityOnly, ""⟩ id
  return endpoint.any fun e => e.kind == .density

end Graph

end DesignTokens
