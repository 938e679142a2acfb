import DesignTokens.Proofs.Graph.Construction
import Mathlib.Tactic.MkIffOfInductiveProp

/-!
# Which exports are accepted

A graph can be built from an export exactly if the parts of the export fit together (`Export.Fits`).
The checks run through the collections and then through the variables, so a variable is held against
collections that are complete, and the order in which the parts are declared is not asked for.  The
overrides play no part in the checks.

The graph has everything as it was declared.  Its catalogs are filled one part at a time, each of
them a table and a list that says in which order its keys came.  They stay in step, so that to go
through that order leaves nothing out; and because ids are distinct, a look-up finds what was
declared under an id and nothing else (`Graph.ofExport_accepts`).
-/

namespace DesignTokens

/-- The parts of an export fit together. -/
@[mk_iff]
structure Export.Fits (source : Export) : Prop where
  modes_ne_nil : ∀ declared ∈ source.collections, declared.modes ≠ []
  nodup_collections : (source.collections.map CollectionDeclaration.id).Nodup
  nodup_nodes : (source.nodes.map Variable.id).Nodup
  owned : ∀ v ∈ source.nodes, ∃ declared ∈ source.collections, declared.id = v.collection ∧
    ∀ mode ∈ v.entries.keys, ∃ m ∈ declared.modes, m.id = mode

instance (source : Export) : Decidable source.Fits := decidable_of_iff' _ source.fits_iff

namespace Graph

variable {source : Export} {overrides : List KindOverride} {g : Graph}

private theorem kindOf_eq (overrides : List KindOverride) (name : String) :
    kindOf overrides name = ((overrides.find? fun override => override.name == name).map
      KindOverride.kind).getD (.ofName name) := by
  unfold kindOf
  split
  · next override h => rw [h, Option.map_some, Option.getD_some]
  · next h => rw [h, Option.map_none, Option.getD_none]

theorem fits_of_ofExport (built : ofExport source overrides = .ok g) : source.Fits := by
  obtain ⟨hmodes, hdistinct, hnodup, sound, hcollections, hnodes, -, -⟩ :=
    ofExport_eq_ok_iff.mp built
  refine ⟨hmodes, hdistinct, hnodup, ?_⟩
  intro v hv
  obtain ⟨c, hc, hfits⟩ := sound.owned v (hnodes ▸ hv)
  obtain ⟨howner, hid⟩ := collection?_eq_some_iff.mp hc
  rw [hcollections] at howner
  obtain ⟨declared, hdeclared, rfl⟩ := List.mem_map.mp howner
  refine ⟨declared, hdeclared, hid, ?_⟩
  intro mode hmode
  exact Collection.hasMode_iff.mp (hfits mode hmode)

theorem exists_ofExport_of_fits (fits : source.Fits) (overrides : List KindOverride) :
    ∃ g, ofExport source overrides = .ok g := by
  let g : Graph := {
    collectionIndex := .ofList (source.collections.map (collectionOf overrides))
    nodeIndex := .ofList source.nodes
    textStyles := source.textStyles
    effectStyles := source.effectStyles }
  -- distinct ids keep insertions from replacing one another
  have hdistinct :
      ((source.collections.map (collectionOf overrides)).map Collection.id).Nodup := by
    rw [List.map_map]
    exact fits.nodup_collections
  have hcollections : g.collections = source.collections.map (collectionOf overrides) :=
    Catalog.values_ofList hdistinct
  have hnodes : g.nodes = source.nodes := Catalog.values_ofList fits.nodup_nodes
  refine ⟨g, ofExport_eq_ok_iff.mpr ⟨fits.modes_ne_nil, fits.nodup_collections, fits.nodup_nodes,
    ⟨?_⟩, hcollections, hnodes, rfl, rfl⟩⟩
  intro v hv
  obtain ⟨declared, hdeclared, hid, hmodes⟩ := fits.owned v (hnodes ▸ hv)
  refine ⟨collectionOf overrides declared, collection?_eq_some_iff.mpr ⟨?_, hid⟩, ?_⟩
  · rw [hcollections]
    exact List.mem_map_of_mem hdeclared
  · intro mode hmode
    exact Collection.hasMode_iff.mpr (hmodes mode hmode)

/-- **What is accepted, and what becomes of it.**  There is a graph for an export exactly if the
parts of the export fit together.  It has the collections and the variables that are declared, in
their order and with all that they hold; a collection is of the kind of the first override of its
name, or else of the kind that its name suggests.  The orders in which the two catalogs are listed
name just what is declared.  A look-up finds what is declared under an id and nothing else, and each
variable belongs to a collection of the graph. -/
theorem ofExport_accepts (source : Export) (overrides : List KindOverride) :
    ((∃ g, ofExport source overrides = .ok g) ↔ source.Fits) ∧
      ∀ g, ofExport source overrides = .ok g →
        g.collections = (source.collections.map fun declared =>
          { id := declared.id
            name := declared.name
            kind := ((overrides.find? fun override => override.name == declared.name).map
              KindOverride.kind).getD (.ofName declared.name)
            modes := declared.modes }) ∧
        g.nodes = source.nodes ∧ g.textStyles = source.textStyles ∧
        g.effectStyles = source.effectStyles ∧
        (g.collectionIndex.order = source.collections.map CollectionDeclaration.id ∧
          g.nodeIndex.order = source.nodes.map Variable.id) ∧
        (∀ id v, g.find? id = some v ↔ v ∈ source.nodes ∧ v.id = id) ∧
        (∀ id c, g.collection? id = some c ↔ c ∈ g.collections ∧ c.id = id) ∧
        ∀ v ∈ g.nodes, ∃ c ∈ g.collections, g.collection? v.collection = some c := by
  refine ⟨⟨fun ⟨_, built⟩ => fits_of_ofExport built, fun fits => exists_ofExport_of_fits fits _⟩,
    ?_⟩
  intro g built
  -- listing the maps by the order vectors gives back what was declared
  have hnodes := nodes_of_ofExport built
  have hcollections := collections_of_ofExport built
  obtain ⟨-, -, htexts, heffects⟩ := ofExport_eq_ok built
  refine ⟨?_, hnodes, htexts, heffects, ⟨?_, ?_⟩, ?_, fun _ _ => collection?_eq_some_iff, ?_⟩
  · rw [hcollections]
    refine List.map_congr_left fun declared _ => ?_
    rw [collectionOf, kindOf_eq]
  · rw [← Catalog.map_key_values, show g.collectionIndex.values = _ from hcollections, List.map_map]
    rfl
  · rw [← Catalog.map_key_values, show g.nodeIndex.values = _ from hnodes]
  · intro id v
    rw [find?_eq_some_iff, hnodes]
  · intro v hv
    obtain ⟨c, hc, -⟩ := (sound_of_ofExport built).owned v hv
    exact ⟨c, (collection?_eq_some_iff.mp hc).1, hc⟩

end Graph

namespace Sample

/-- The breakpoints as a density layer.  The second override of the name is not looked at. -/
def asDensity : List KindOverride := [⟨"Breakpoints", .density⟩, ⟨"Breakpoints", .component⟩]

/-- With a variable that is declared twice the export is refused. -/
theorem ofExport_accepts_source :
    source.Fits ∧
      (∃ g, Graph.ofExport source asDensity = .ok g ∧ g.find? heading.id = some heading ∧
        g.find? ⟨"footer"⟩ = none ∧ g.kind? heading = some .density) ∧
      ¬ ∃ g,
        Graph.ofExport { source with nodes := [sixteen, body, sixteen] } asDensity = .ok g := by
  have hfits : source.Fits := by decide
  obtain ⟨haccepted, hindexed⟩ := Graph.ofExport_accepts source asDensity
  obtain ⟨g, built⟩ := haccepted.mpr hfits
  obtain ⟨hcollections, -, -, -, -, hfind, hcollection, -⟩ := hindexed g built
  refine ⟨hfits, ⟨g, built, ?_, ?_, ?_⟩, ?_⟩
  · exact (hfind _ _).mpr ⟨by decide, rfl⟩
  · rw [Option.eq_none_iff_forall_ne_some]
    intro v hv
    obtain ⟨hdeclared, hid⟩ := (hfind _ _).mp hv
    have hothers : ∀ v ∈ source.nodes, v.id ≠ ⟨"footer"⟩ := by decide
    exact hothers v hdeclared hid
  · have howner : g.collection? heading.collection = some { breakpoints with kind := .density } :=
      (hcollection _ _).mpr ⟨hcollections ▸ by decide, rfl⟩
    rw [Graph.kind?, howner]
    rfl
  · rw [(Graph.ofExport_accepts _ asDensity).1]
    decide

end Sample

end DesignTokens
