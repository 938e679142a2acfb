import DesignTokens.Proofs.Ratio.Index
import DesignTokens.Proofs.Ratio.Pass

/-!
# What attaching ratios does

`TokenSet.attached` is what becomes of one file.  Nothing of a token changes but its ratio, and a
new ratio is the one of the token's outcome (`exists_of_mem_attached`).  A token is assigned a ratio
only if it is a line height with a number for a value, and one by identity only if a composite of
the cell is bound to a variable of the chain (`exists_composite_of_assigned`).
-/

namespace DesignTokens

variable {tokens : TokenSet} {options : RatioOptions} {file : TokenFile} {token : Token}

namespace Ratio

variable {index : RatioIndex}

/-! ## Outcomes -/

theorem outcome_eq_assigned_iff {ratio : LineHeightRatio} :
    outcome index options file token = .assigned ratio ↔
      token.isLineHeight ∧ ¬ token.endpoint.any Endpoint.isSymbolic ∧
        ∃ height, token.value.float? = some height ∧
          ratio? index options file token height = some ratio := by
  unfold outcome
  by_cases hheight : token.isLineHeight
  · by_cases hsymbolic : token.endpoint.any Endpoint.isSymbolic
    · simp [hheight, hsymbolic]
    · rw [if_pos hheight, if_neg hsymbolic]
      cases hratio : token.value.float?.bind (ratio? index options file token) with
      | none =>
          rw [Option.bind_eq_none_iff] at hratio
          constructor
          · intro h
            cases h
          · rintro ⟨-, -, height, hvalue, hsome⟩
            rw [hratio height hvalue] at hsome
            cases hsome
      | some found =>
          obtain ⟨height, hvalue, hfound⟩ := Option.bind_eq_some_iff.mp hratio
          simp [hheight, hsymbolic, hvalue, hfound]
  · simp [hheight]

/-- A ratio is due to a reasoning if that gives it and no earlier reasoning applies. -/
theorem ratio?_eq_some_iff {height : Binary64} {ratio : LineHeightRatio} :
    ratio? index options file token height = some ratio ↔ match ratio.source with
      | .identity => identityRatio? index token = some ratio.ratio
      | .namePattern => identityRatio? index token = none ∧
          Sibling.ratio? file token height = some ratio.ratio
      | .valuePattern => identityRatio? index token = none ∧
          Sibling.ratio? file token height = none ∧ options.valuePattern ∧
            index.ratioOfValue? height = some ratio.ratio := by
  obtain ⟨ratio, source⟩ := ratio
  unfold ratio?
  cases identityRatio? index token with
  | some found => cases source <;> simp
  | none =>
      cases Sibling.ratio? file token height with
      | some found => cases source <;> simp
      | none =>
          by_cases hpattern : options.valuePattern
          · cases source <;> simp [hpattern]
          · cases source <;> simp [hpattern]

/-- A ratio by identity is the one of a composite that is bound to a variable of the chain. -/
theorem exists_composite_of_assigned {key : CellKey} {ratio : Binary64}
    (h : outcome (.ofCell tokens key) options file token = .assigned ⟨ratio, .identity⟩) :
    ∃ composite ∈ tokens.compositesOf key, ∃ id ∈ token.chain, ∃ height,
      token.value.float? = some height ∧
        composite.typography.lineHeight.boundTo? = some id ∧
          composite.typography.ratio? = some ratio := by
  obtain ⟨-, -, height, hvalue, hratio⟩ := outcome_eq_assigned_iff.mp h
  have hidentity : identityRatio? _ token = some ratio := ratio?_eq_some_iff.mp hratio
  obtain ⟨id, hid, hfound⟩ := List.exists_of_findSome?_eq_some hidentity
  obtain ⟨composite, hmem, hbound, hown⟩ := RatioIndex.exists_composite_of_ratioOf? hfound
  exact ⟨composite, hmem, id, hid, height, hvalue, hbound, hown⟩

end Ratio

/-! ## Files -/

namespace TokenSet

open Ratio

theorem value_attachRatios (tokens : TokenSet) (options : RatioOptions) :
    (tokens.attachRatios options).value =
      ({ tokens with files := tokens.files.map (tokens.attached options) },
        .sum (tokens.ratioCells.map fun key => (reportCell tokens options key).value)) := by
  rw [attachRatios_eq]

theorem findings_attachRatios (tokens : TokenSet) (options : RatioOptions) :
    (tokens.attachRatios options).findings =
      tokens.ratioCells.flatMap fun key => (reportCell tokens options key).findings := by
  rw [attachRatios_eq]

@[simp] theorem attached_key : (tokens.attached options file).key = file.key := by
  unfold attached
  split
  · rfl
  · rfl

/-- A token differs from what it was before by its ratio at most, and by that only if it is assigned
one. -/
theorem exists_of_mem_attached (htoken : token ∈ (tokens.attached options file).tokens) :
    ∃ old ∈ file.tokens, token = { old with lineHeightRatio := token.lineHeightRatio } ∧
      ∀ ratio, token.lineHeightRatio = some ratio → old.lineHeightRatio = some ratio ∨
        outcome (.ofCell tokens file.key) options file old = .assigned ratio := by
  unfold attached at htoken
  split at htoken
  · obtain ⟨old, hold, rfl⟩ := List.mem_map.mp htoken
    refine ⟨old, hold, ?_⟩
    cases houtcome : outcome (.ofCell tokens file.key) options file old with
    | untouched => exact ⟨rfl, fun ratio h => .inl h⟩
    | symbolic => exact ⟨rfl, fun ratio h => .inl h⟩
    | unmatched => exact ⟨rfl, fun ratio h => .inl h⟩
    | assigned ratio => exact ⟨rfl, fun other h => .inr (congrArg _ (Option.some.inj h))⟩
  · exact ⟨token, htoken, rfl, fun ratio h => .inl h⟩

end TokenSet

end DesignTokens
