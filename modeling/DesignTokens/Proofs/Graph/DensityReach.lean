import DesignTokens.Proofs.Graph.Axes

/-!
# Chains that run through the density layer

`Graph.reachesDensity` looks for an endpoint where only primitives and the density layer are
accepted.  In terms of the chain it says that some variable of the density layer comes behind the
start, and no primitive before it (`reachesDensity_iff`).

A context chooses the mode of a variable by one of its axes only, which the collection decides.  So
choosing a density leaves all entries as they are, apart from those in collections that vary by
density (`entry?_withDensity`).  One of these is the density layer, where the search ends.  If the
chain comes through no other one on the way there (`IsSteady`), the search goes the same way whether
or not a density is chosen (`reachesDensity_withDensity`).
-/

namespace DesignTokens

/-! ## Choosing a density -/

private theorem CollectionKind.modeAxis?_eq_density_iff {kind : CollectionKind} :
    kind.modeAxis? = some .density ↔ kind = .density ∨ kind = .semantic .density := by
  cases kind with
  | semantic axis => simp [modeAxis?]
  | density => simp [modeAxis?]
  | primitive => simp [modeAxis?]
  | brandMapping axis => simp [modeAxis?]
  | component => simp [modeAxis?]

/-- A density matters only to what varies by density. -/
theorem Context.agrees_withDensity {context : Context} {mode : ModeId} {kind : CollectionKind}
    (hlayer : kind ≠ .density) (haxis : kind ≠ .semantic .density) :
    (context.withDensity mode).Agrees context kind where
  byName := fun _ _ => rfl
  byMode := by
    intro axis hmode
    cases axis with
    | density =>
        rcases CollectionKind.modeAxis?_eq_density_iff.mp hmode with h | h
        · exact absurd h hlayer
        · exact absurd h haxis
    | brand => rfl
    | breakpoint => rfl
    | colorMode => rfl

namespace Graph

variable {g : Graph} {context context' : Context} {stops : Stops} {id : VariableId} {v : Variable}
  {mode : ModeId}

/-- A density matters only for variables of collections that vary by density. -/
theorem entry?_withDensity (hlayer : g.kind? v ≠ some .density)
    (haxis : g.kind? v ≠ some (.semantic .density)) :
    g.entry? (context.withDensity mode) v = g.entry? context v := by
  apply entry?_congr
  intro kind hkind
  rw [hkind, ne_eq, Option.some.injEq] at hlayer haxis
  exact Context.agrees_withDensity hlayer haxis

/-! ## Walks in two contexts -/

/-- A walk is the same in two contexts that read the same entry wherever it comes through. -/
theorem endpointFrom_congr {S : Variable → Prop}
    (agree : ∀ v, S v → g.entry? context v = g.entry? context' v)
    (closed : ∀ v next w, S v → g.entry? context v = some (.alias next) →
      g.find? next = some w → g.acceptedKind? stops w = none → S w)
    {trail : Trail} (hv : S v) :
    g.endpointFrom context stops trail v = g.endpointFrom context' stops trail v := by
  induction hcount : g.unvisited trail using Nat.strongRecOn generalizing trail v with
  | _ count ih =>
      -- both searches read the same entry and so take the same turn
      have hsame := agree v hv
      rcases hread : g.entry? context v with _ | literal | next
      · rw [endpointFrom_inline (by simp [hread]), endpointFrom_inline (by simp [← hsame, hread])]
      · rw [endpointFrom_inline (by simp [hread]), endpointFrom_inline (by simp [← hsame, hread])]
      · have hread' : g.entry? context' v = some (.alias next) := hsame ▸ hread
        by_cases hvisited : next ∈ trail
        · rw [endpointFrom_visited hread hvisited, endpointFrom_visited hread' hvisited]
        · cases hfound : g.find? next with
          | none =>
              rw [endpointFrom_unknown hread hvisited hfound,
                endpointFrom_unknown hread' hvisited hfound]
          | some w =>
              rw [endpointFrom_found hread hvisited hfound,
                endpointFrom_found hread' hvisited hfound]
              cases haccepted : g.acceptedKind? stops w with
              | some kind => simp [endpointAt?, hfound, haccepted]
              | none =>
                  have hlt := unvisited_lt hvisited hfound
                  have hnext := closed v next w hv hread hfound haccepted
                  simpa [endpointAt?, hfound, haccepted] using ih _ (hcount ▸ hlt) hnext rfl

/-! ## Reaching the density layer -/

/-- Behind its start the chain of a variable comes to the density layer, and to no primitive
before. -/
def RunsThroughDensity (g : Graph) (context : Context) (id : VariableId) : Prop :=
  ∃ earlier hop later w, (g.resolve context id).value.chain = id :: (earlier ++ hop :: later) ∧
    (∀ other ∈ earlier, ∀ u, g.find? other = some u → g.kind? u ≠ some .primitive) ∧
    g.find? hop = some w ∧ g.kind? w = some .density

/-- The search for the density layer stops at primitives and in the density layer. -/
theorem acceptedKind?_densityOnly {kind : CollectionKind} :
    g.acceptedKind? ⟨.densityOnly, ""⟩ v = some kind ↔
      g.kind? v = some kind ∧ (kind = .primitive ∨ kind = .density) := by
  rw [acceptedKind?_eq_some_iff]
  constructor
  · intro accepted
    cases accepted with
    | primitive layer => exact ⟨layer, .inl rfl⟩
    | density layer flag => exact ⟨layer, .inr rfl⟩
    | semantic layer hunscoped flag => cases flag
    | componentBreakpoint layer hscoped flag => cases flag
  · rintro ⟨layer, rfl | rfl⟩
    · exact .primitive layer
    · exact .density layer rfl

theorem endpointAt?_densityOnly {hop : VariableId} {endpoint : Endpoint} :
    g.endpointAt? ⟨.densityOnly, ""⟩ hop = some endpoint ↔ ∃ w kind, g.find? hop = some w ∧
      g.kind? w = some kind ∧ (kind = .primitive ∨ kind = .density) ∧
        endpoint = .ofVariable kind w := by
  simp only [endpointAt?, Option.bind_eq_some_iff, Option.map_eq_some_iff,
    acceptedKind?_densityOnly]
  constructor
  · rintro ⟨w, found, kind, ⟨layer, hkind⟩, rfl⟩
    exact ⟨w, kind, found, layer, hkind, rfl⟩
  · rintro ⟨w, kind, found, layer, hkind, rfl⟩
    exact ⟨w, found, kind, ⟨layer, hkind⟩, rfl⟩

/-- The search ends in the density layer exactly if a variable of that layer comes before any
primitive. -/
theorem any_findSome?_endpointAt? {hops : Trail} :
    ((hops.findSome? (g.endpointAt? ⟨.densityOnly, ""⟩)).any fun e => e.kind == .density) = true ↔
      ∃ earlier hop later w, hops = earlier ++ hop :: later ∧
        (∀ other ∈ earlier, ∀ u, g.find? other = some u → g.kind? u ≠ some .primitive) ∧
        g.find? hop = some w ∧ g.kind? w = some .density := by
  rw [Option.any_eq_true_iff_get]
  constructor
  · rintro ⟨hsome, hdensity⟩
    obtain ⟨endpoint, hendpoint⟩ := Option.isSome_iff_exists.mp hsome
    simp only [hendpoint, Option.get_some, beq_iff_eq] at hdensity
    obtain ⟨earlier, hop, later, rfl, hhop, hearlier⟩ := List.findSome?_eq_some_iff.mp hendpoint
    obtain ⟨w, kind, found, layer, -, rfl⟩ := endpointAt?_densityOnly.mp hhop
    obtain rfl : kind = .density := hdensity
    refine ⟨earlier, hop, later, w, rfl, ?_, found, layer⟩
    intro other hother u hu hprimitive
    have hstop := endpointAt?_densityOnly.mpr ⟨u, _, hu, hprimitive, .inl rfl, rfl⟩
    rw [hearlier other hother] at hstop
    cases hstop
  · rintro ⟨earlier, hop, later, w, rfl, hearlier, found, layer⟩
    have hstop : g.endpointAt? ⟨.densityOnly, ""⟩ hop = some (.ofVariable .density w) :=
      endpointAt?_densityOnly.mpr ⟨w, _, found, layer, .inr rfl, rfl⟩
    rw [List.findSome?_append, List.findSome?_cons, hstop]
    cases hfirst : earlier.findSome? (g.endpointAt? ⟨.densityOnly, ""⟩) with
    | none => exact ⟨rfl, rfl⟩
    | some endpoint =>
        -- an earlier stop is no primitive, so it is in the density layer as well
        obtain ⟨other, hother, heq⟩ := List.exists_of_findSome?_eq_some hfirst
        obtain ⟨u, kind, hu, hkind, hstops, rfl⟩ := endpointAt?_densityOnly.mp heq
        rcases hstops with rfl | rfl
        · exact absurd hkind (hearlier other hother u hu)
        · exact ⟨rfl, rfl⟩

theorem reachesDensity_iff (found : g.find? id = some v) :
    (g.reachesDensity context id).value = true ↔ g.RunsThroughDensity context id := by
  obtain ⟨rest, hchain⟩ := chain_resolve_eq_cons found context
  have hvalue : (g.reachesDensity context id).value =
      (rest.findSome? (g.endpointAt? ⟨.densityOnly, ""⟩)).any fun e => e.kind == .density := by
    simp only [reachesDensity, Logged.value_bind, Logged.value_pure,
      endpoint_eq_of_resolve found, hchain, List.tail_cons]
  simp only [hvalue, any_findSome?_endpointAt?, RunsThroughDensity, hchain, List.cons.injEq,
    true_and]

/-! ## With and without a density -/

/-- Whether a variable is neither a primitive nor in the density layer. -/
def isUpper (g : Graph) (hop : VariableId) : Bool :=
  (g.find? hop).bind g.kind? ≠ some .primitive ∧ (g.find? hop).bind g.kind? ≠ some .density

/-- The chain of a variable comes through no collection that is semantic and varies by density, as
far as the first primitive or variable of the density layer. -/
def IsSteady (g : Graph) (context : Context) (id : VariableId) : Prop :=
  ∀ hop ∈ (g.resolve context id).value.chain.takeWhile g.isUpper, ∀ w, g.find? hop = some w →
    g.kind? w ≠ some (.semantic .density)

theorem isUpper_iff (found : g.find? id = some v) :
    g.isUpper id ↔ g.kind? v ≠ some .primitive ∧ g.kind? v ≠ some .density := by
  rw [isUpper, found, Option.bind_some, decide_eq_true_iff]

/-- A variable of a chain in front of the primitives and the density layer. -/
structure Ahead (g : Graph) (context : Context) (id : VariableId) (w : Variable) : Prop where
  found : g.find? w.id = some w
  upper : g.isUpper w.id
  visited : w.id ∈ (g.resolve context id).value.chain.takeWhile g.isUpper

/-- The search for the density layer goes on along the chain, in front of that layer. -/
theorem Ahead.next {w u : Variable} {next : VariableId} (ahead : g.Ahead context id w)
    (hread : g.entry? context w = some (.alias next)) (hu : g.find? next = some u)
    (hpassed : g.acceptedKind? ⟨.densityOnly, ""⟩ u = none) : g.Ahead context id u := by
  obtain ⟨-, rfl⟩ := find?_eq_some_iff.mp hu
  have hnowhere : ∀ kind, kind = .primitive ∨ kind = .density → g.kind? u ≠ some kind := by
    intro kind hstops hkind
    have hstop := acceptedKind?_densityOnly.mpr ⟨hkind, hstops⟩
    rw [hpassed] at hstop
    cases hstop
  have hupper := (isUpper_iff hu).mpr ⟨hnowhere _ (.inl rfl), hnowhere _ (.inr rfl)⟩
  refine ⟨hu, hupper, ?_⟩
  have hvisited := ahead.visited
  have resolves := resolves_resolve g context id
  generalize g.resolve context id = result at resolves hvisited ⊢
  cases resolves with
  | absent unknown => cases hvisited
  | walk walk hlast found ending =>
      exact walk.mem_takeWhile_of_target? hvisited ((target?_eq_some_iff ahead.found).mpr hread)
        (by simp [hu]) hupper

/-- Whether a steady chain reaches the density layer does not depend on the density that is
chosen. -/
theorem reachesDensity_withDensity (found : g.find? id = some v) (hstart : g.isUpper id)
    (hsteady : g.IsSteady context id) :
    g.reachesDensity (context.withDensity mode) id = g.reachesDensity context id := by
  have agree : ∀ w, g.Ahead context id w →
      g.entry? context w = g.entry? (context.withDensity mode) w := by
    intro w ahead
    have hlayer := ((isUpper_iff ahead.found).mp ahead.upper).2
    exact (entry?_withDensity hlayer (hsteady w.id ahead.visited w ahead.found)).symm
  have hv : g.Ahead context id v := by
    obtain ⟨-, rfl⟩ := find?_eq_some_iff.mp found
    obtain ⟨rest, hchain⟩ := chain_resolve_eq_cons found context
    exact ⟨found, hstart, by simp [hchain, hstart]⟩
  have hendpoint : g.endpoint (context.withDensity mode) ⟨.densityOnly, ""⟩ id =
      g.endpoint context ⟨.densityOnly, ""⟩ id := by
    simp only [endpoint, found]
    exact (endpointFrom_congr agree (fun _ _ _ ahead => ahead.next) hv).symm
  rw [reachesDensity, hendpoint, reachesDensity]

end Graph

end DesignTokens
