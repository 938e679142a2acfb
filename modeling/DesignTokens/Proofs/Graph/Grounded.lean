import DesignTokens.Proofs.Graph.Classification
import Mathlib.Logic.Relation

/-!
# Exports that leave nothing unresolved

In a well-formed export (`Export.WellFormed`) all ids name variables, every variable holds an entry,
and aliases lead in no circle, whichever modes they stand in.  A walk reads one entry of each
variable, as its context says, so all its hops are aliases of the export
(`Graph.aliases_of_target?`).  Hence a walk that came back to one of its variables would be a circle
of the export, and the other endings without a value ask for an id or an entry that is missing: what
remains is the literal (`Export.WellFormed.resolve`).

Walks that look for endpoints note what resolving notes at most, which is nothing.
-/

namespace DesignTokens

/-! ## Well-formed exports -/

/-- The variables that a text style is bound to. -/
def TextBindings.ids (bindings : TextBindings) : List VariableId :=
  [bindings.fontFamily, bindings.fontWeight, bindings.fontStyle, bindings.fontSize,
    bindings.lineHeight, bindings.letterSpacing].filterMap id

theorem TextBindings.forall_mem_ids_iff {bindings : TextBindings} {P : VariableId → Prop} :
    (∀ id ∈ bindings.ids, P id) ↔ (∀ id ∈ bindings.fontFamily, P id) ∧
      (∀ id ∈ bindings.fontWeight, P id) ∧ (∀ id ∈ bindings.fontStyle, P id) ∧
        (∀ id ∈ bindings.fontSize, P id) ∧ (∀ id ∈ bindings.lineHeight, P id) ∧
          ∀ id ∈ bindings.letterSpacing, P id := by
  simp [ids, or_imp, forall_and, eq_comm]

/-- The variables that an effect is bound to. -/
def EffectBindings.ids (bindings : EffectBindings) : List VariableId :=
  [bindings.color, bindings.offsetX, bindings.offsetY, bindings.radius,
    bindings.spread].filterMap id

theorem EffectBindings.forall_mem_ids_iff {bindings : EffectBindings} {P : VariableId → Prop} :
    (∀ id ∈ bindings.ids, P id) ↔ (∀ id ∈ bindings.color, P id) ∧
      (∀ id ∈ bindings.offsetX, P id) ∧ (∀ id ∈ bindings.offsetY, P id) ∧
        (∀ id ∈ bindings.radius, P id) ∧ ∀ id ∈ bindings.spread, P id := by
  simp [ids, or_imp, forall_and, eq_comm]

namespace Export

def Declares (source : Export) (id : VariableId) : Prop := ∃ v ∈ source.nodes, v.id = id

/-- A variable is in some mode an alias of another. -/
def Aliases (source : Export) (id target : VariableId) : Prop :=
  ∃ v ∈ source.nodes, v.id = id ∧ ∃ mode, v.entry? mode = some (.alias target)

structure WellFormed (source : Export) : Prop where
  aliases : ∀ id target, source.Aliases id target → source.Declares target
  textStyles : ∀ style ∈ source.textStyles, ∀ id ∈ style.bindings.ids, source.Declares id
  effectStyles : ∀ style ∈ source.effectStyles, ∀ effect ∈ style.effects,
    ∀ id ∈ effect.bindings.ids, source.Declares id
  filled : ∀ v ∈ source.nodes, v.entries.keys ≠ []
  acyclic : ∀ id, ¬ Relation.TransGen source.Aliases id id

variable {source : Export}

/-- Aliases that all lead down some order lead in no circle. -/
theorem not_transGen_aliases_of_rank (rank : VariableId → Nat)
    (h : ∀ id target, source.Aliases id target → rank target < rank id) (id : VariableId) :
    ¬ Relation.TransGen source.Aliases id id := by
  have hdown : ∀ first last, Relation.TransGen source.Aliases first last →
      rank last < rank first := by
    intro first last hpath
    induction hpath with
    | single hstep => exact h _ _ hstep
    | tail _ hstep ih => exact (h _ _ hstep).trans ih
  exact fun hcircle => Nat.lt_irrefl _ (hdown id id hcircle)

/-- An alias stands among the entries of its variable. -/
theorem Aliases.exists_entry {id target : VariableId}
    (h : source.Aliases id target) :
    ∃ v ∈ source.nodes, v.id = id ∧ ∃ entry ∈ v.entries.entries, entry.2.target? = some target := by
  obtain ⟨v, hv, hid, mode, hentry⟩ := h
  obtain ⟨entry, hfound, heq⟩ := Option.map_eq_some_iff.mp hentry
  exact ⟨v, hv, hid, entry, List.mem_of_find?_eq_some hfound, by rw [heq]; rfl⟩

end Export

namespace Graph

variable {source : Export} {overrides : List KindOverride} {g : Graph} {context : Context}
  {stops : Stops} {id : VariableId}

/-! ## The graph of an export -/

theorem find?_isSome_iff : (g.find? id).isSome ↔ ∃ v ∈ g.nodes, v.id = id := by
  simp only [Option.isSome_iff_exists, find?_eq_some_iff]

theorem find?_isSome_of_declares (built : ofExport source overrides = .ok g)
    (declared : source.Declares id) : (g.find? id).isSome := by
  rw [find?_isSome_iff, nodes_of_ofExport built]
  exact declared

/-- An entry that a context reads stands in some mode. -/
theorem exists_mode_of_entry? {v : Variable} {entry : Entry}
    (h : g.entry? context v = some entry) : ∃ mode, v.entry? mode = some entry := by
  obtain ⟨c, -, h⟩ := Option.bind_eq_some_iff.mp h
  obtain ⟨selection, hselect, rfl⟩ := Option.map_eq_some_iff.mp h
  rcases Option.or_eq_some_iff.mp hselect with h | ⟨-, h⟩
  · obtain ⟨mode, -, h⟩ := Option.bind_eq_some_iff.mp h
    obtain ⟨entry, hentry, rfl⟩ := Option.map_eq_some_iff.mp h
    exact ⟨mode, hentry⟩
  · obtain ⟨mode, -, h⟩ := List.exists_of_findSome?_eq_some h
    obtain ⟨entry, hentry, rfl⟩ := Option.map_eq_some_iff.mp h
    exact ⟨mode.id, hentry⟩

/-- Each hop of a walk is an alias of the export. -/
theorem aliases_of_target? (built : ofExport source overrides = .ok g) {next : VariableId}
    (h : g.target? context id = some next) : source.Aliases id next := by
  obtain ⟨entry, hentry, htarget⟩ := Option.bind_eq_some_iff.mp h
  obtain ⟨v, found, hread⟩ := Option.bind_eq_some_iff.mp hentry
  obtain ⟨hmem, hid⟩ := find?_eq_some_iff.mp found
  obtain ⟨mode, hmode⟩ := exists_mode_of_entry? hread
  refine ⟨v, nodes_of_ofExport built ▸ hmem, hid, mode, ?_⟩
  cases entry <;> cases htarget
  exact hmode

/-! ## Walks that end in a circle -/

/-- A walk whose last variable leads back into it has gone around a circle. -/
theorem IsWalk.transGen_of_mem {chain : Trail} {last next : VariableId}
    (walk : g.IsWalk context id chain) (hlast : chain.getLast? = some last)
    (hnext : g.target? context last = some next) (visited : next ∈ chain) :
    Relation.TransGen (fun hop next => g.target? context hop = some next) next next := by
  obtain ⟨front, rest, rfl⟩ := List.append_of_mem visited
  have hround : (next :: rest).getLast (List.cons_ne_nil _ _) = last := by
    rw [List.getLast?_append_cons] at hlast
    exact (List.getLast_eq_iff_getLast?_eq_some _).mpr hlast
  have hback := List.relationReflTransGen_of_exists_isChain_cons rest walk.linked.right_of_append
    hround
  exact .tail' hback hnext

end Graph

private theorem Value.isResolved_iff {value : Value} : value.isResolved ↔ value.reason? = none := by
  cases value <;> simp [isResolved, reason?]

/-! ## Walks in a well-formed export -/

namespace Export.WellFormed

open DesignTokens.Graph

variable {source : Export} {overrides : List KindOverride} {g : Graph} {id : VariableId}

/-- Every variable comes to a value, and nothing is noted. -/
theorem resolve (formed : source.WellFormed) (built : ofExport source overrides = .ok g)
    (hid : (g.find? id).isSome) (context : Context) :
    (g.resolve context id).value.value.isResolved ∧ (g.resolve context id).findings = [] := by
  have resolves := resolves_resolve g context id
  generalize g.resolve context id = result at resolves ⊢
  cases resolves with
  | absent unknown =>
      rw [unknown] at hid
      cases hid
  | walk walk hlast found ending =>
      obtain ⟨hmem, -⟩ := find?_eq_some_iff.mp found
      -- all endings but the literal are at odds with the source being well-formed
      cases ending with
      | literal read => exact ⟨Value.isResolved_iff.mpr (Literal.reason?_value _ _), rfl⟩
      | empty read =>
          have hempty := ((sound_of_ofExport built).entry?_eq_none_iff hmem context).mp read
          exact absurd hempty (formed.filled _ (nodes_of_ofExport built ▸ hmem))
      | missing read unknown =>
          have halias := aliases_of_target? built ((target?_eq_some_iff found).mpr read)
          have hknown := find?_isSome_of_declares built (formed.aliases _ _ halias)
          rw [unknown] at hknown
          cases hknown
      | circular read visited =>
          have hcircle := walk.transGen_of_mem hlast ((target?_eq_some_iff found).mpr read) visited
          have hhops : (fun hop next => g.target? context hop = some next) ≤ source.Aliases :=
            fun _ _ => aliases_of_target? built
          exact absurd (Relation.TransGen.mono hhops _ _ hcircle) (formed.acyclic _)

theorem findings_endpoint (formed : source.WellFormed) (built : ofExport source overrides = .ok g)
    (hid : (g.find? id).isSome) (context : Context) (stops : Stops) :
    (g.endpoint context stops id).findings = [] := by
  obtain ⟨v, found⟩ := Option.isSome_iff_exists.mp hid
  rw [endpoint_eq_of_resolve found]
  simp only [(formed.resolve built hid context).2]
  unfold findingsBeside
  split
  · rfl
  · rfl

theorem findings_endpointOfReference (formed : source.WellFormed)
    (built : ofExport source overrides = .ok g) (hid : (g.find? id).isSome) (context : Context)
    (stops : Stops) : (g.endpointOfReference context stops id).findings = [] := by
  obtain ⟨v, found⟩ := Option.isSome_iff_exists.mp hid
  simp only [endpointOfReference, found]
  cases g.acceptedKind? stops v with
  | none => exact formed.findings_endpoint built hid context stops
  | some kind => rfl

end Export.WellFormed

end DesignTokens
