import DesignTokens.Proofs.Graph.References

/-!
# Accepting more layers

Walks that stop at more layers still stop at every variable at which they stopped before, with the
same kind, because each layer asks for a flag of its own (`Graph.Accepted.mono`): whether a semantic
variable is component-scoped decides which flag is asked, and never that a second one is tried.

The variables that a walk comes through do not depend on where it stops.  So of two walks along one
chain the one that stops at more variables stops no later (`exists_findSome?_noLater`).
-/

namespace DesignTokens

/-! ## Searching for more -/

/-- An item has a place in a list that is not behind some place of the other. -/
def NoLater {α : Type} (items : List α) (item other : α) : Prop :=
  ∃ i j : Nat, i ≤ j ∧ items[i]? = some item ∧ items[j]? = some other

namespace NoLater

variable {α : Type} {items : List α} {item other head : α}

private theorem of_head (h : other ∈ head :: items) : NoLater (head :: items) head other := by
  obtain ⟨j, hj⟩ := List.mem_iff_getElem?.mp h
  exact ⟨0, j, Nat.zero_le j, rfl, hj⟩

theorem cons (head : α) (h : NoLater items item other) : NoLater (head :: items) item other := by
  obtain ⟨i, j, hle, hi, hj⟩ := h
  exact ⟨i + 1, j + 1, Nat.succ_le_succ hle, hi, hj⟩

private theorem of_tail (h : NoLater items.tail item other) : NoLater items item other := by
  cases items with
  | nil => exact h
  | cons head rest => exact h.cons head

end NoLater

/-- The first hit of a search for more is no later than that of a search for less. -/
theorem exists_findSome?_noLater {α β : Type} {find findMore : α → Option β}
    (more : ∀ item hit, find item = some hit → findMore item = some hit) {items : List α} {hit : β}
    (hhit : items.findSome? find = some hit) :
    ∃ first item firstHit, NoLater items first item ∧ findMore first = some firstHit ∧
      find item = some hit ∧ items.findSome? findMore = some firstHit := by
  induction items with
  | nil => cases hhit
  | cons head rest ih =>
      cases hmore : findMore head with
      | some firstHit =>
          obtain ⟨item, hitem, hfind⟩ := List.exists_of_findSome?_eq_some hhit
          exact ⟨head, item, firstHit, .of_head hitem, hmore, hfind,
            by rw [List.findSome?_cons, hmore]⟩
      | none =>
          -- what finds less finds nothing here either
          have hfind : find head = none := by
            rw [Option.eq_none_iff_forall_ne_some]
            intro found hfound
            rw [more head found hfound] at hmore
            cases hmore
          rw [List.findSome?_cons, hfind] at hhit
          obtain ⟨first, item, firstHit, hle, hfirst, hitem, hsearch⟩ := ih hhit
          exact ⟨first, item, firstHit, hle.cons head, hfirst, hitem,
            by rw [List.findSome?_cons, hmore, hsearch]⟩

/-! ## More flags -/

/-- Every flag that is set is set in the others. -/
structure Acceptance.Within (flags others : Acceptance) : Prop where
  semantic : flags.semantic → others.semantic
  density : flags.density → others.density
  componentBreakpoint : flags.componentBreakpoint → others.componentBreakpoint

namespace Graph

variable {g : Graph} {context : Context} {flags others : Acceptance} {componentPrefix : String}
  {hop : VariableId} {v : Variable} {kind : CollectionKind} {chain : Trail} {endpoint : Endpoint}

section

variable (within : flags.Within others)

include within

theorem Accepted.mono (accepted : g.Accepted ⟨flags, componentPrefix⟩ v kind) :
    g.Accepted ⟨others, componentPrefix⟩ v kind := by
  cases accepted with
  | primitive layer => exact .primitive layer
  | semantic layer hunscoped flag => exact .semantic layer hunscoped (within.semantic flag)
  | componentBreakpoint layer hscoped flag =>
      exact .componentBreakpoint layer hscoped (within.componentBreakpoint flag)
  | density layer flag => exact .density layer (within.density flag)

private theorem endpointAt?_mono (h : g.endpointAt? ⟨flags, componentPrefix⟩ hop = some endpoint) :
    g.endpointAt? ⟨others, componentPrefix⟩ hop = some endpoint := by
  obtain ⟨v, kind, found, accepted, heq⟩ := endpointAt?_eq_some_iff.mp h
  exact endpointAt?_eq_some_iff.mpr ⟨v, kind, found, accepted.mono within, heq⟩

/-- Walks that stop at more layers stop no later. -/
theorem exists_stop_of_within
    (h : chain.findSome? (g.endpointAt? ⟨flags, componentPrefix⟩) = some endpoint) :
    ∃ earlier, chain.findSome? (g.endpointAt? ⟨others, componentPrefix⟩) = some earlier ∧
      NoLater chain earlier.id endpoint.id := by
  obtain ⟨first, hop, earlier, hle, hfirst, hhop, hsearch⟩ :=
    exists_findSome?_noLater (fun _ _ => endpointAt?_mono within) h
  obtain rfl := id_of_endpointAt? hfirst
  obtain rfl := id_of_endpointAt? hhop
  exact ⟨earlier, hsearch, hle⟩

/-- Walks that stop nowhere stop nowhere at fewer layers. -/
theorem no_stop_of_within
    (h : chain.findSome? (g.endpointAt? ⟨others, componentPrefix⟩) = none) :
    chain.findSome? (g.endpointAt? ⟨flags, componentPrefix⟩) = none := by
  rw [Option.eq_none_iff_forall_ne_some]
  intro endpoint hendpoint
  obtain ⟨earlier, hearlier, -⟩ := exists_stop_of_within within hendpoint
  rw [h] at hearlier
  cases hearlier

end

/-- **Accepting more layers never moves an endpoint further away.**  Where a chain has an endpoint,
with more flags it has one that is no later on the chain, on which no variable comes twice; and
where it has none with more flags, it has none with fewer.  The same holds for references. -/
theorem endpoint_noLater_of_within (within : flags.Within others) (g : Graph) (context : Context)
    (componentPrefix : String) (id : VariableId) :
    let chain := (g.resolve context id).value.chain
    let few : Stops := ⟨flags, componentPrefix⟩
    let many : Stops := ⟨others, componentPrefix⟩
    chain.Nodup ∧
      (∀ endpoint, (g.endpoint context few id).value = some endpoint →
        ∃ earlier, (g.endpoint context many id).value = some earlier ∧
          NoLater chain earlier.id endpoint.id) ∧
      ((g.endpoint context many id).value = none → (g.endpoint context few id).value = none) ∧
      (∀ endpoint, (g.endpointOfReference context few id).value = some endpoint →
        ∃ earlier, (g.endpointOfReference context many id).value = some earlier ∧
          NoLater chain earlier.id endpoint.id) ∧
      ((g.endpointOfReference context many id).value = none →
        (g.endpointOfReference context few id).value = none) := by
  intro chain few many
  simp only [value_endpoint, value_endpointOfReference]
  refine ⟨nodup_chain_resolve g context id, ?_, no_stop_of_within within, ?_,
    no_stop_of_within within⟩
  · intro endpoint hendpoint
    obtain ⟨earlier, hearlier, hle⟩ := exists_stop_of_within within hendpoint
    exact ⟨earlier, hearlier, hle.of_tail⟩
  · intro endpoint hendpoint
    exact exists_stop_of_within within hendpoint

end Graph

namespace Sample

/-- The chain of the heading is cut off at the primitive behind the body, or at the body if semantic
layers are accepted; a reference to the heading is then one to the heading itself. -/
theorem endpoint_of_heading_noLater :
    Acceptance.Within .primitives { semantic := true } ∧
      (graph.resolve { breakpoint := some ⟨"sm"⟩ } heading.id).value.chain =
        [heading.id, body.id, sixteen.id] ∧
      (graph.endpoint { breakpoint := some ⟨"sm"⟩ } ⟨.primitives, "Component/"⟩
        heading.id).value = some ⟨.primitive, sixteen.id, "Size/16", "16"⟩ ∧
      (∃ earlier, (graph.endpoint { breakpoint := some ⟨"sm"⟩ }
          ⟨{ semantic := true }, "Component/"⟩ heading.id).value = some earlier ∧
        earlier.id = body.id ∧
        NoLater [heading.id, body.id, sixteen.id] earlier.id sixteen.id) ∧
      (graph.endpointOfReference { breakpoint := some ⟨"sm"⟩ }
        ⟨{ semantic := true }, "Component/"⟩ heading.id).value.map Endpoint.id =
          some heading.id := by
  have within : Acceptance.Within .primitives { semantic := true } := ⟨nofun, nofun, nofun⟩
  have hchain : (graph.resolve { breakpoint := some ⟨"sm"⟩ } heading.id).value.chain =
      [heading.id, body.id, sixteen.id] := by decide +kernel
  have hendpoint : (graph.endpoint { breakpoint := some ⟨"sm"⟩ } ⟨.primitives, "Component/"⟩
      heading.id).value = some ⟨.primitive, sixteen.id, "Size/16", "16"⟩ := by decide +kernel
  obtain ⟨-, hstops, -⟩ := Graph.endpoint_noLater_of_within within graph
    { breakpoint := some ⟨"sm"⟩ } "Component/" heading.id
  rw [hchain] at hstops
  obtain ⟨earlier, hearlier, hle⟩ := hstops _ hendpoint
  have hid : ∀ endpoint ∈ (graph.endpoint { breakpoint := some ⟨"sm"⟩ }
      ⟨{ semantic := true }, "Component/"⟩ heading.id).value, endpoint.id = body.id := by
    decide +kernel
  exact ⟨within, hchain, hendpoint, ⟨earlier, hearlier, hid earlier hearlier, hle⟩,
    by decide +kernel⟩

end Sample

end DesignTokens
