import DesignTokens.Proofs.Graph.Acceptance
import DesignTokens.Proofs.Graph.Comparison

/-!
# The order of declaration does not matter

Building stops at the first part that does not fit, so two orders of the same parts can be refused
for different reasons.  But whether all parts fit is a question about which parts there are
(`Export.Fits.of_perm`).  And where all ids are distinct, look-ups do not see in what order things
were declared, so the two graphs find the same (`Graph.Alike.of_perm`): every walk in the one is a
walk in the other.
-/

namespace DesignTokens

/-- The same parts in another order fit together as well. -/
theorem Export.Fits.of_perm {source other : Export} (fits : source.Fits)
    (hcollections : source.collections.Perm other.collections)
    (hnodes : source.nodes.Perm other.nodes) : other.Fits where
  modes_ne_nil := by
    intro declared hdeclared
    exact fits.modes_ne_nil declared (hcollections.mem_iff.mpr hdeclared)
  nodup_collections := (hcollections.map _).nodup_iff.mp fits.nodup_collections
  nodup_nodes := (hnodes.map _).nodup_iff.mp fits.nodup_nodes
  owned := by
    intro v hv
    obtain ⟨declared, hdeclared, howner⟩ := fits.owned v (hnodes.mem_iff.mpr hv)
    exact ⟨declared, hcollections.mem_iff.mp hdeclared, howner⟩

namespace Graph

/-- Graphs that have the same collections and variables find the same. -/
theorem Alike.of_perm {g h : Graph} (hcollections : g.collections.Perm h.collections)
    (hnodes : g.nodes.Perm h.nodes) : g.Alike h where
  find?_eq := by
    intro id
    refine Option.ext fun v => ?_
    rw [find?_eq_some_iff, find?_eq_some_iff, hnodes.mem_iff]
  collection?_eq := by
    intro id
    refine Option.ext fun c => ?_
    rw [collection?_eq_some_iff, collection?_eq_some_iff, hcollections.mem_iff]

/-- **The order of declaration does not matter.**  If the collections and the variables of an export
are declared in another order, a graph can be built as before or cannot be built as before.  In the
two graphs every variable comes in every context to the same value along the same chain, with the
same findings, and its chain has the same endpoint wherever it stops, as has a reference to it. -/
theorem walks_of_perm_declarations {source : Export} {collections : List CollectionDeclaration}
    {nodes : List Variable} (hcollections : source.collections.Perm collections)
    (hnodes : source.nodes.Perm nodes) (overrides : List KindOverride) :
    ((∃ g, ofExport source overrides = .ok g) ↔
      ∃ h, ofExport { source with collections, nodes } overrides = .ok h) ∧
      ∀ g h, ofExport source overrides = .ok g →
        ofExport { source with collections, nodes } overrides = .ok h →
        ∀ context id, g.resolve context id = h.resolve context id ∧
          ∀ stops, g.endpoint context stops id = h.endpoint context stops id ∧
            g.endpointOfReference context stops id = h.endpointOfReference context stops id := by
  constructor
  · constructor
    · rintro ⟨g, built⟩
      have fits : Export.Fits { source with collections, nodes } :=
        (fits_of_ofExport built).of_perm hcollections hnodes
      exact exists_ofExport_of_fits fits overrides
    · rintro ⟨h, built⟩
      have fits : source.Fits := (fits_of_ofExport built).of_perm hcollections.symm hnodes.symm
      exact exists_ofExport_of_fits fits overrides
  · intro g h built built' context id
    have hcollections' : g.collections.Perm h.collections := by
      rw [collections_of_ofExport built, collections_of_ofExport built']
      exact hcollections.map _
    have hnodes' : g.nodes.Perm h.nodes := by
      rw [nodes_of_ofExport built, nodes_of_ofExport built']
      exact hnodes
    have alike := Alike.of_perm hcollections' hnodes'
    refine ⟨alike.resolve_eq context id, ?_⟩
    intro stops
    exact ⟨alike.endpoint_eq context stops id, alike.endpointOfReference_eq context stops id⟩

end Graph

namespace Sample

/-- With everything declared the other way round, `body` still comes back to itself over
`heading`. -/
theorem walks_of_reversed_declarations :
    source.nodes.Perm source.nodes.reverse ∧ source.nodes ≠ source.nodes.reverse ∧
      ∃ h, Graph.ofExport { source with
          collections := source.collections.reverse
          nodes := source.nodes.reverse } [] = .ok h ∧
        h.resolve { breakpoint := some ⟨"lg"⟩ } body.id =
          .note ⟨.unresolved .circularReference, [body.id, heading.id]⟩
            ⟨.circularReference, "Text/body", "Text/body -> Text/heading -> Text/body"⟩ := by
  have hcollections := (List.reverse_perm source.collections).symm
  have hnodes := (List.reverse_perm source.nodes).symm
  obtain ⟨haccepted, hsame⟩ := Graph.walks_of_perm_declarations hcollections hnodes []
  obtain ⟨h, built⟩ := haccepted.mp ⟨graph, ofExport_source⟩
  obtain ⟨hresolve, -⟩ := hsame graph h ofExport_source built { breakpoint := some ⟨"lg"⟩ } body.id
  refine ⟨hnodes, by decide, h, built, ?_⟩
  rw [← hresolve]
  decide +kernel

end Sample

end DesignTokens
