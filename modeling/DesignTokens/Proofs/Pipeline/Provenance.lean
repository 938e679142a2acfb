import DesignTokens.Proofs.Pipeline.Building

/-!
# Where the values of a token set come from

Every value in the files and in the density matrix is what some variable comes to in some context,
and whatever was noted when that variable was resolved is among the findings of the token set
(`Pipeline.draws_tokens`).  `Graph.Draws` states this for one part of a token set, so that it goes
up from a token over its file to the whole: more findings and fewer values keep it.
-/

namespace DesignTokens

/-! ## The values of a token set -/

def TokenFile.values (file : TokenFile) : List Value := file.tokens.map Token.value

def DensityToken.values (token : DensityToken) : List Value := token.cells.map DensityCell.value

/-- The values of all tokens and of all cells of the density matrix. -/
def TokenSet.values (tokens : TokenSet) : List Value :=
  tokens.files.flatMap TokenFile.values ++ tokens.density.flatMap DensityToken.values

theorem TokenSet.forall_mem_values_iff {tokens : TokenSet} {P : Value → Prop} :
    (∀ value ∈ tokens.values, P value) ↔
      (∀ file ∈ tokens.files, ∀ token ∈ file.tokens, P token.value) ∧
        ∀ row ∈ tokens.density, ∀ cell ∈ row.cells, P cell.value := by
  simp only [values, TokenFile.values, DensityToken.values, List.forall_mem_append,
    List.forall_mem_flatMap, List.forall_mem_map]

/-! ## Values with findings -/

/-- Each value is what a variable comes to, and what was noted about that variable is among the
findings. -/
def Graph.Draws (g : Graph) (values : List Value) (findings : List Finding) : Prop :=
  ∀ value ∈ values, ∃ context id, (g.resolve context id).value.value = value ∧
    (g.resolve context id).findings ⊆ findings

namespace Graph.Draws

variable {g : Graph} {values values' : List Value} {findings findings' : List Finding}

/-- Fewer values and more findings change nothing. -/
theorem mono (draws : g.Draws values findings) (hvalues : values' ⊆ values)
    (hfindings : findings ⊆ findings') : g.Draws values' findings' := by
  intro value hvalue
  obtain ⟨context, id, hresolve, hnoted⟩ := draws value (hvalues hvalue)
  exact ⟨context, id, hresolve, List.Subset.trans hnoted hfindings⟩

theorem append (draws : g.Draws values findings) (draws' : g.Draws values' findings') :
    g.Draws (values ++ values') (findings ++ findings') := by
  have hleft := draws.mono (List.Subset.refl _) (List.subset_append_left findings findings')
  have hright := draws'.mono (List.Subset.refl _) (List.subset_append_right findings findings')
  exact List.forall_mem_append.mpr ⟨hleft, hright⟩

/-- What holds of the result of each item holds of all results. -/
theorem forList {α β : Type} (items : List α) (f : α → Logged β) (valuesOf : β → List Value)
    (draws : ∀ item ∈ items, g.Draws (valuesOf (f item).value) (f item).findings) :
    g.Draws ((Logged.forList items f).value.flatMap valuesOf)
      (Logged.forList items f).findings := by
  intro value hvalue
  rw [Logged.value_forList, List.flatMap_map] at hvalue
  obtain ⟨item, hitem, hmem⟩ := List.mem_flatMap.mp hvalue
  obtain ⟨context, id, hresolve, hnoted⟩ := draws item hitem value hmem
  refine ⟨context, id, hresolve, ?_⟩
  intro finding hfinding
  rw [Logged.findings_forList]
  exact List.mem_flatMap.mpr ⟨item, hitem, hnoted hfinding⟩

end Graph.Draws

namespace Pipeline

open DesignTokens.Graph (Draws)

variable {p : Pipeline} {context : Context} {cell : Cell} {v : Variable}

/-! ## Files -/

theorem draws_token :
    p.graph.Draws [(p.token context v).value.value] (p.token context v).findings := by
  intro value hvalue
  rw [List.mem_singleton.mp hvalue]
  exact ⟨context, v.id, rfl, by simp [token]⟩

/-- Sorting tokens into files makes up no value. -/
theorem values_sortByScope_subset (key : CellKey) (entries : List (String × Token)) :
    (TokenFile.sortByScope key entries).flatMap TokenFile.values ⊆
      entries.flatMap fun entry => [entry.2.value] := by
  intro value hvalue
  obtain ⟨file, hfile, hvalue⟩ := List.mem_flatMap.mp hvalue
  obtain ⟨token, htoken, rfl⟩ := List.mem_map.mp hvalue
  have hentry := (TokenFile.mem_of_mem_sortByScope hfile).2 token htoken
  exact List.mem_flatMap.mpr ⟨_, hentry, List.mem_singleton_self _⟩

theorem draws_filesIn {select : Variable → Bool} :
    p.graph.Draws ((p.filesIn select cell).value.flatMap TokenFile.values)
      (p.filesIn select cell).findings := by
  have htokens := Draws.forList (p.graph.nodes.filter select) (p.token cell.context)
    (fun token => [token.value]) fun v _ => draws_token
  rw [Logged.findings_forList, Logged.value_forList, List.flatMap_map] at htokens
  rw [value_filesIn, findings_filesIn]
  refine htokens.mono ?_ (List.Subset.refl _)
  have hsubset := values_sortByScope_subset cell.key
    ((p.graph.nodes.filter select).map (p.entryOf cell))
  rwa [List.flatMap_map] at hsubset

private theorem draws_primitiveFile {collection : Collection} :
    p.graph.Draws (p.primitiveFile collection).value.values
      (p.primitiveFile collection).findings := by
  have htokens := Draws.forList (p.graph.variablesIn collection.id) (p.token .unspecified)
    (fun token => [token.value]) fun v _ => draws_token
  refine htokens.mono ?_ (by simp [primitiveFile])
  rw [← List.map_eq_flatMap]
  exact List.Subset.refl _

private theorem draws_tokenFiles {files : Logged (List TokenFile)} (h : p.tokenFiles = .ok files) :
    p.graph.Draws (files.value.flatMap TokenFile.values) files.findings := by
  obtain ⟨sized, colored, -, -, rfl⟩ := exists_cells_of_tokenFiles h
  have hprimitives := Draws.forList
    (p.graph.collections.filter fun collection => collection.kind == .primitive) p.primitiveFile
    TokenFile.values fun collection _ => draws_primitiveFile
  have hdimensions := Draws.forList sized (p.filesIn p.isDimension)
    (List.flatMap TokenFile.values) fun cell _ => draws_filesIn
  have hcolors := Draws.forList colored (p.filesIn p.isColor)
    (List.flatMap TokenFile.values) fun cell _ => draws_filesIn
  refine ((hprimitives.append hdimensions).append hcolors).mono ?_ (by simp)
  simp only [Logged.value_bind, Logged.value_pure, List.flatMap_append, ← List.flatMap_id,
    List.flatMap_assoc, id]
  exact List.Subset.refl _

/-! ## The density matrix -/

private theorem draws_densityCell :
    p.graph.Draws [(p.densityCell v cell).value.value] (p.densityCell v cell).findings := by
  intro value hvalue
  rw [List.mem_singleton.mp hvalue]
  exact ⟨cell.context, v.id, rfl, by simp [densityCell, Graph.value]⟩

private theorem draws_densityToken? {brand : Brand} {probes cells : List Cell} :
    p.graph.Draws
      ((p.densityToken? brand probes cells v).value.toList.flatMap DensityToken.values)
      (p.densityToken? brand probes cells v).findings := by
  have hcells := Draws.forList cells (p.densityCell v) (fun cell => [cell.value])
    fun cell _ => draws_densityCell
  unfold densityToken?
  simp only [Logged.value_bind, Logged.findings_bind]
  split
  · refine hcells.mono ?_ (by simp)
    rw [← List.map_eq_flatMap]
    simp [DensityToken.values]
  · simp [Graph.Draws]

private theorem draws_densityRows {brand : Brand} {probes cells : List Cell} :
    p.graph.Draws ((p.densityRows brand probes cells).value.flatMap DensityToken.values)
      (p.densityRows brand probes cells).findings := by
  have hrows := Draws.forList (p.graph.nodes.filter p.isBreakpointDimension)
    (p.densityToken? brand probes cells) (fun row => row.toList.flatMap DensityToken.values)
    fun v _ => draws_densityToken?
  refine hrows.mono ?_ (by simp [densityRows])
  rw [← List.flatMap_assoc, densityRows, Logged.value_bind, Logged.value_pure,
    List.filterMap_eq_flatMap_toList]
  exact List.Subset.refl _

private theorem draws_densityMatrix {rows : Logged (List DensityToken)}
    (h : p.densityMatrix = .ok rows) :
    p.graph.Draws (rows.value.flatMap DensityToken.values) rows.findings := by
  unfold densityMatrix at h
  split at h
  · obtain rfl := Except.pure_eq_ok_iff.mp h
    simp [Graph.Draws]
  · obtain ⟨brands, -, h⟩ := Except.bind_eq_ok_iff.mp h
    obtain rfl := Except.pure_eq_ok_iff.mp h
    have hrows := Draws.forList brands (fun entry => p.densityRows entry.1 entry.2.1 entry.2.2)
      (List.flatMap DensityToken.values) fun _ _ => draws_densityRows
    refine hrows.mono ?_ (by simp [Functor.map])
    simp only [Functor.map, Function.comp_apply, ← List.flatMap_id, List.flatMap_assoc, id]
    exact List.Subset.refl _

/-! ## Token sets -/

/-- The values of a token set are ones that variables come to, and what was noted about these
variables is among its findings. -/
theorem draws_tokens {built : Logged TokenSet} (h : p.tokens = .ok built) :
    p.graph.Draws built.value.values built.findings := by
  obtain ⟨files, typography, effects, density, hfiles, -, -, hdensity, hvalue, hfindings⟩ :=
    tokens_eq_ok h
  rw [hvalue, hfindings]
  refine ((draws_tokenFiles hfiles).append (draws_densityMatrix hdensity)).mono
    (List.Subset.refl _) ?_
  intro finding hfinding
  simp only [List.mem_append] at hfinding ⊢
  tauto

end Pipeline

end DesignTokens
