import DesignTokens.Proofs.Ratio.Pass

/-!
# What a report says about a cell

The report on a token set puts together the reports on its cells, each of which lists disputes and
line heights of that cell only.
-/

namespace DesignTokens

namespace RatioReport

/-- A list in a report that grows by appending is in a sum what it is in the parts, in order. -/
theorem sum_eq_flatMap {α : Type} {part : RatioReport → List α} (hempty : part {} = [])
    (happend : ∀ report other, part (append report other) = part report ++ part other)
    (reports : List RatioReport) : part (sum reports) = reports.flatMap part := by
  -- the fold starts from any report, not only from the empty one
  have hfold : ∀ start,
      part (reports.foldl append start) = part start ++ reports.flatMap part := by
    induction reports with
    | nil => simp
    | cons report rest ih =>
        intro start
        rw [List.foldl_cons, ih, happend, List.flatMap_cons, List.append_assoc]
  rw [sum, hfold, hempty, List.nil_append]

theorem conflicts_sum (reports : List RatioReport) :
    (sum reports).conflicts = reports.flatMap conflicts :=
  sum_eq_flatMap rfl (fun _ _ => rfl) reports

theorem unmatched_sum (reports : List RatioReport) :
    (sum reports).unmatched = reports.flatMap unmatched :=
  sum_eq_flatMap rfl (fun _ _ => rfl) reports

end RatioReport

namespace Ratio

variable {tokens : TokenSet} {options : RatioOptions} {index : RatioIndex} {file : TokenFile}
  {key : CellKey}

/-! ## The reports on tokens, files and cells -/

private theorem conflicts_reportToken (token : Token) (outcome : Outcome) :
    (reportToken file token outcome).value.conflicts = [] := by
  cases outcome with
  | assigned ratio =>
      obtain ⟨ratio, source⟩ := ratio
      cases source <;> rfl
  | untouched => rfl
  | symbolic => rfl
  | unmatched => rfl

private theorem key_of_mem_unmatched_reportToken {token : Token} {outcome : Outcome}
    {entry : UnmatchedToken} (h : entry ∈ (reportToken file token outcome).value.unmatched) :
    entry.key = file.key := by
  cases outcome with
  | assigned ratio =>
      obtain ⟨ratio, source⟩ := ratio
      cases source <;> cases h
  | untouched => cases h
  | symbolic => cases h
  | unmatched =>
      rw [List.mem_singleton.mp h]

theorem conflicts_reportFile : (reportFile index options file).value.conflicts = [] := by
  rw [value_reportFile, RatioReport.conflicts_sum, List.flatMap_map]
  simp [conflicts_reportToken]

private theorem key_of_mem_unmatched_reportFile {entry : UnmatchedToken}
    (h : entry ∈ (reportFile index options file).value.unmatched) : entry.key = file.key := by
  rw [value_reportFile, RatioReport.unmatched_sum, List.flatMap_map] at h
  obtain ⟨token, -, hentry⟩ := List.mem_flatMap.mp h
  exact key_of_mem_unmatched_reportToken hentry

theorem key_of_mem_conflicts_reportCell {conflict : RatioConflict}
    (h : conflict ∈ (reportCell tokens options key).value.conflicts) : conflict.key = key := by
  rw [value_reportCell, RatioReport.conflicts_sum, List.flatMap_append, List.flatMap_map,
    List.flatMap_map] at h
  rcases List.mem_append.mp h with h | h
  · -- a dispute of this cell
    obtain ⟨dispute, -, hconflict⟩ := List.mem_flatMap.mp h
    rw [List.mem_singleton.mp hconflict]
  · -- a file has no part in disputes
    obtain ⟨file, -, hconflict⟩ := List.mem_flatMap.mp h
    rw [conflicts_reportFile] at hconflict
    cases hconflict

theorem key_of_mem_unmatched_reportCell {entry : UnmatchedToken}
    (h : entry ∈ (reportCell tokens options key).value.unmatched) : entry.key = key := by
  rw [value_reportCell, RatioReport.unmatched_sum, List.flatMap_append, List.flatMap_map,
    List.flatMap_map] at h
  rcases List.mem_append.mp h with h | h
  · obtain ⟨dispute, -, hentry⟩ := List.mem_flatMap.mp h
    cases hentry
  · obtain ⟨file, hfile, hentry⟩ := List.mem_flatMap.mp h
    rw [key_of_mem_unmatched_reportFile hentry]
    simpa using (List.mem_filter.mp hfile).2

end Ratio

end DesignTokens
