import DesignTokens.Proofs.Ratio.Attachment
import DesignTokens.Proofs.Ratio.Report

/-!
# Where ratios come from

A ratio that is attached to a token or listed in a conflict is one of a composite of the set or of
two siblings in a file, and nothing is computed from it.  So a property of all of these is one of
all ratios that the pass hands over (`TokenSet.forall_ratio_attached`,
`TokenSet.forall_ratio_conflicts`).
-/

namespace DesignTokens

variable {P : Binary64 → Prop}

/-! ## Tokens and conflicts -/

namespace Ratio

variable {options : RatioOptions} {file : TokenFile} {token : Token} {height : Binary64}

/-- A ratio that a token is assigned is one of a composite or of its sibling. -/
theorem of_ratio? {tokens : TokenSet} {key : CellKey}
    (hcomposites : ∀ composite ∈ tokens.typography, ∀ r ∈ composite.typography.ratio?, P r)
    (hsibling : ∀ r ∈ Sibling.ratio? file token height, P r) {ratio : LineHeightRatio}
    (h : ratio? (.ofCell tokens key) options file token height = some ratio) : P ratio.ratio := by
  obtain ⟨ratio, source⟩ := ratio
  have hcase := ratio?_eq_some_iff.mp h
  cases source with
  | identity =>
      obtain ⟨id, -, hfound⟩ := List.exists_of_findSome?_eq_some hcase
      obtain ⟨composite, hmem, -, hown⟩ := RatioIndex.exists_composite_of_ratioOf? hfound
      exact hcomposites composite (List.mem_filter.mp hmem).1 ratio hown
  | namePattern => exact hsibling ratio hcase.2
  | valuePattern =>
      obtain ⟨composite, hmem, hown⟩ :=
        RatioIndex.exists_composite_of_ratioOfValue? hcase.2.2.2
      exact hcomposites composite (List.mem_filter.mp hmem).1 ratio hown

/-- The conflicts of a cell are the disputes of its index. -/
theorem conflicts_reportCell (tokens : TokenSet) (options : RatioOptions) (key : CellKey) :
    (reportCell tokens options key).value.conflicts =
      (RatioIndex.ofCell tokens key).disputes.map fun dispute =>
        ⟨key, dispute.id, dispute.ratios⟩ := by
  rw [value_reportCell, RatioReport.conflicts_sum, List.flatMap_append, List.flatMap_map,
    List.flatMap_map]
  simp [reportDispute, Logged.note, conflicts_reportFile, List.map_eq_flatMap]

end Ratio

namespace TokenSet

variable {tokens : TokenSet} {options : RatioOptions}

/-- A variable is in conflict in a cell if the index of the cell has a dispute about it. -/
theorem exists_conflict_iff {key : CellKey} {id : VariableId} :
    (∃ conflict ∈ (RatioReport.sum (tokens.ratioCells.map fun key =>
        (Ratio.reportCell tokens options key).value)).conflicts,
      conflict.key = key ∧ conflict.id = id) ↔
      key ∈ tokens.ratioCells ∧
        ∃ dispute ∈ (RatioIndex.ofCell tokens key).disputes, dispute.id = id := by
  simp only [RatioReport.conflicts_sum, List.flatMap_map, List.mem_flatMap,
    Ratio.conflicts_reportCell, List.mem_map]
  constructor
  · rintro ⟨conflict, ⟨cell, hcell, dispute, hdispute, rfl⟩, rfl, rfl⟩
    exact ⟨hcell, dispute, hdispute, rfl⟩
  · rintro ⟨hcell, dispute, hdispute, rfl⟩
    exact ⟨_, ⟨key, hcell, dispute, hdispute, rfl⟩, rfl, rfl⟩

section

variable (hcomposites : ∀ composite ∈ tokens.typography, ∀ r ∈ composite.typography.ratio?, P r)

include hcomposites

/-- What holds of the ratios of composites and siblings holds of every ratio that is attached. -/
theorem forall_ratio_attached {file : TokenFile}
    (hsiblings : ∀ token ∈ file.tokens, ∀ height ∈ token.value.float?,
      ∀ r ∈ Sibling.ratio? file token height, P r)
    (hbefore : ∀ token ∈ file.tokens, ∀ ratio ∈ token.lineHeightRatio, P ratio.ratio) :
    ∀ token ∈ (tokens.attached options file).tokens, ∀ ratio ∈ token.lineHeightRatio,
      P ratio.ratio := by
  intro token htoken ratio hratio
  obtain ⟨old, hold, -, hsource⟩ := exists_of_mem_attached htoken
  rcases hsource ratio hratio with hkept | hassigned
  · exact hbefore old hold ratio hkept
  · obtain ⟨-, -, height, hheight, hfound⟩ := Ratio.outcome_eq_assigned_iff.mp hassigned
    exact Ratio.of_ratio? hcomposites (hsiblings old hold height hheight) hfound

/-- What holds of the ratios of composites holds of every ratio in a conflict. -/
theorem forall_ratio_conflicts {conflict : RatioConflict}
    (h : conflict ∈ (RatioReport.sum (tokens.ratioCells.map fun key =>
      (Ratio.reportCell tokens options key).value)).conflicts) :
    ∀ ratio ∈ conflict.ratios, P ratio := by
  rw [RatioReport.conflicts_sum, List.flatMap_map] at h
  obtain ⟨key, -, hconflict⟩ := List.mem_flatMap.mp h
  rw [Ratio.conflicts_reportCell] at hconflict
  obtain ⟨dispute, hdispute, rfl⟩ := List.mem_map.mp hconflict
  intro ratio hratio
  obtain ⟨composite, hmem, hown⟩ := RatioIndex.exists_composite_of_mem_disputes hdispute hratio
  exact hcomposites composite (List.mem_filter.mp hmem).1 ratio hown

end

end TokenSet

end DesignTokens
