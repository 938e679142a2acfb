import DesignTokens.Proofs.Graph.Walk

/-!
# The variables of one chain

From a variable that a walk came through, the walk goes on as before.  So if it ends outside of
itself, each variable of its chain comes to the same value, along the rest of the chain
(`resolve_eq_of_mem_chain`).  Only a walk that ends in a circle is different: from its middle one
gets around the circle in another order.
-/

namespace DesignTokens.Graph

variable {g : Graph} {context : Context} {id hop : VariableId} {front rest : Trail}

/-- Behind each of its variables a walk goes on. -/
theorem IsWalk.continues (walk : g.IsWalk context id (front ++ hop :: rest)) :
    g.Continues context [] hop rest := by
  refine ⟨?_, walk.linked.right_of_append, walk.nodup.of_append_right⟩
  intro other hother
  exact walk.known other (List.mem_append_right front hother)

/-- An ending outside of the walk does not ask where the walk began. -/
theorem Ending.suffix {v : Variable} {result : Logged Value}
    (ending : g.Ending context (front ++ hop :: rest) v result)
    (hvalue : result.value ≠ .unresolved .circularReference) :
    g.Ending context (hop :: rest) v result := by
  cases ending with
  | literal read => exact .literal read
  | empty read => exact .empty read
  | missing read unknown =>
      rename_i next
      have hfinding : g.missingFinding (front ++ hop :: rest) next =
          g.missingFinding (hop :: rest) next := by
        rw [missingFinding, missingFinding, origin, origin, List.getLast?_append_cons]
      rw [hfinding]
      exact .missing read unknown
  | circular read visited => exact absurd rfl hvalue

/-- From each variable of a chain that does not end in a circle one comes to the same value, with
the same findings, along the rest of the chain. -/
theorem resolve_eq_of_chain_eq
    (hvalue : (g.resolve context id).value.value ≠ .unresolved .circularReference)
    (hchain : (g.resolve context id).value.chain = front ++ hop :: rest) :
    g.resolve context hop =
      ⟨⟨(g.resolve context id).value.value, hop :: rest⟩, (g.resolve context id).findings⟩ := by
  have resolves := resolves_resolve g context id
  generalize g.resolve context id = result at resolves hvalue hchain ⊢
  cases resolves with
  | absent unknown => exact absurd hchain (by simp [Logged.note])
  | walk walk hlast found ending =>
      obtain rfl := hchain
      rw [List.getLast?_append_cons] at hlast
      exact resolveFrom_eq_of_continues walk.continues hlast found (ending.suffix hvalue)

/-- **Variables of one chain.**  If a variable does not end in a circle, each variable of its chain
comes to the same value, with the same findings, along the rest of the chain. -/
theorem resolve_eq_of_mem_chain
    (hvalue : (g.resolve context id).value.value ≠ .unresolved .circularReference)
    (hhop : hop ∈ (g.resolve context id).value.chain) :
    ∃ front rest, (g.resolve context id).value.chain = front ++ hop :: rest ∧
      g.resolve context hop =
        ⟨⟨(g.resolve context id).value.value, hop :: rest⟩, (g.resolve context id).findings⟩ := by
  obtain ⟨front, rest, hchain⟩ := List.append_of_mem hhop
  exact ⟨front, rest, hchain, resolve_eq_of_chain_eq hvalue hchain⟩

end DesignTokens.Graph
