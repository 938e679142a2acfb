import DesignTokens.Proofs.Graph.Classification

/-!
# Walks that are compared

A walk looks at nothing of a graph but what it finds by ids, and at nothing of a context but which
entries it reads.  So two graphs that find the same (`Alike`), each in a context of its own, resolve
a variable alike as soon as they read the same entries along its chain: the chain in the one is a
walk in the other, and a walk determines the result (`Alike.resolve_eq_of_sameEntries`).  An
endpoint is determined by what its variable comes to, so it is the same as well.

In one and the same context graphs that find the same always read the same entries.
-/

namespace DesignTokens.Graph

/-- Two graphs find the same variables and collections. -/
structure Alike (g h : Graph) : Prop where
  find?_eq : ∀ id, g.find? id = h.find? id
  collection?_eq : ∀ id, g.collection? id = h.collection? id

/-- Two graphs, each in its context, read the same entry of each variable of a chain. -/
def SameEntries (g h : Graph) (context context' : Context) (chain : Trail) : Prop :=
  ∀ hop ∈ chain, ∀ v, g.find? hop = some v → g.entry? context v = h.entry? context' v

variable {g h : Graph} {context context' : Context} {chain : Trail} {id : VariableId}
  {stops : Stops}

namespace Alike

theorem refl (g : Graph) : g.Alike g := ⟨fun _ => rfl, fun _ => rfl⟩

variable (alike : g.Alike h)

include alike

theorem pathOf_eq : g.pathOf = h.pathOf := by
  funext id
  rw [pathOf, alike.find?_eq, pathOf]

private theorem kind?_eq (v : Variable) : g.kind? v = h.kind? v := by
  rw [kind?, alike.collection?_eq, kind?]

theorem entry?_eq (context : Context) (v : Variable) : g.entry? context v = h.entry? context v := by
  unfold entry?
  rw [alike.collection?_eq]

private theorem circularFinding_eq (trail : Trail) (id : VariableId) :
    g.circularFinding trail id = h.circularFinding trail id := by
  rw [circularFinding, describe, alike.pathOf_eq, circularFinding, describe]

theorem missingFinding_eq (trail : Trail) (id : VariableId) :
    g.missingFinding trail id = h.missingFinding trail id := by
  rw [missingFinding, origin, alike.pathOf_eq, missingFinding, origin]

theorem acceptedKind?_eq (stops : Stops) (v : Variable) :
    g.acceptedKind? stops v = h.acceptedKind? stops v := by
  rw [acceptedKind?, alike.kind?_eq, acceptedKind?]

private theorem endpointAt?_eq (stops : Stops) : g.endpointAt? stops = h.endpointAt? stops := by
  funext hop
  simp only [endpointAt?, alike.find?_eq, alike.acceptedKind?_eq]

end Alike

/-! ## Walks that read the same -/

namespace SameEntries

variable (same : g.SameEntries h context context' chain) (alike : g.Alike h)

include same alike

theorem target?_eq {hop : VariableId} (hhop : hop ∈ chain) :
    g.target? context hop = h.target? context' hop := by
  rw [target?, target?, ← alike.find?_eq]
  cases hfound : g.find? hop with
  | none => rfl
  | some v => rw [Option.bind_some, Option.bind_some, same hop hhop v hfound]

theorem isWalk (walk : g.IsWalk context id chain) : h.IsWalk context' id chain where
  starts := walk.starts
  known := by
    intro hop hhop
    rw [← alike.find?_eq]
    exact walk.known hop hhop
  linked := by
    apply walk.linked.imp_of_mem_imp
    intro hop next hhop _ htarget
    rw [← same.target?_eq alike hhop]
    exact htarget
  nodup := walk.nodup
  ends := by
    intro last hlast next hnext hknown
    rw [← same.target?_eq alike (List.mem_of_mem_getLast? hlast)] at hnext
    rw [← alike.find?_eq] at hknown
    exact walk.ends last hlast next hnext hknown

theorem ending {last : VariableId} (hlast : chain.getLast? = some last) {v : Variable}
    (found : g.find? last = some v) {result : Logged Value}
    (ending : g.Ending context chain v result) : h.Ending context' chain v result := by
  have hread := same last (List.mem_of_mem_getLast? hlast) v found
  cases ending with
  | literal read => exact .literal (hread ▸ read)
  | empty read => exact .empty (hread ▸ read)
  | missing read unknown =>
      rw [alike.missingFinding_eq]
      exact .missing (hread ▸ read) (alike.find?_eq _ ▸ unknown)
  | circular read visited =>
      rw [alike.circularFinding_eq]
      exact .circular (hread ▸ read) visited

end SameEntries

/-! ## Results that are the same -/

namespace Alike

variable (alike : g.Alike h)

include alike

/-- A variable comes to the same where its chain is read in the same way. -/
theorem resolve_eq_of_sameEntries
    (same : g.SameEntries h context context' (g.resolve context id).value.chain) :
    g.resolve context id = h.resolve context' id := by
  have resolves := resolves_resolve g context id
  generalize g.resolve context id = result at resolves same ⊢
  symm
  apply resolve_eq_of_resolves
  cases resolves with
  | absent unknown =>
      rw [alike.missingFinding_eq]
      exact .absent (alike.find?_eq id ▸ unknown)
  | walk walk hlast found ending =>
      exact .walk (same.isWalk alike walk) hlast (alike.find?_eq _ ▸ found)
        (same.ending alike hlast found ending)

/-- An endpoint is determined by what the variable comes to. -/
theorem endpoint_eq_of_resolve_eq (hsame : g.resolve context id = h.resolve context' id)
    (stops : Stops) : g.endpoint context stops id = h.endpoint context' stops id := by
  cases hfound : g.find? id with
  | none => rw [endpoint, endpoint, ← alike.find?_eq, hfound]
  | some v =>
      rw [endpoint_eq_of_resolve hfound, endpoint_eq_of_resolve (alike.find?_eq id ▸ hfound), hsame,
        alike.endpointAt?_eq]

theorem resolve_eq (context : Context) (id : VariableId) :
    g.resolve context id = h.resolve context id :=
  alike.resolve_eq_of_sameEntries fun _ _ v _ => alike.entry?_eq context v

theorem value_eq (context : Context) (id : VariableId) :
    g.value context id = h.value context id := by
  rw [value, alike.resolve_eq, value]

theorem endpoint_eq (context : Context) (stops : Stops) (id : VariableId) :
    g.endpoint context stops id = h.endpoint context stops id :=
  alike.endpoint_eq_of_resolve_eq (alike.resolve_eq context id) stops

theorem endpointOfReference_eq (context : Context) (stops : Stops) (id : VariableId) :
    g.endpointOfReference context stops id = h.endpointOfReference context stops id := by
  simp only [endpointOfReference, alike.find?_eq, alike.acceptedKind?_eq, alike.endpoint_eq]

end Alike

end DesignTokens.Graph
