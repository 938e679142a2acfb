import DesignTokens.Proofs.Ratio.Attachment

/-!
# Attaching ratios once more

To attach ratios changes the ratios of tokens and nothing else
(`TokenSet.withoutRatios_attachRatios`), and it does not look at them.  A composite has its ratio
from its own properties, a font size is found by its path, and a line height is judged by its path,
its value, its chain and its endpoint.  So the outcomes and the report for a token set are those for
the set without ratios (`Ratio.outcome_withoutRatios`, `Ratio.reportCell_withoutRatios`).

Hence a second time comes to the same outcomes and the same report, and what it writes is already
there.
-/

namespace DesignTokens

def Token.withoutRatio (token : Token) : Token := { token with lineHeightRatio := none }

def TokenFile.withoutRatios (file : TokenFile) : TokenFile :=
  { file with tokens := file.tokens.map Token.withoutRatio }

def TokenSet.withoutRatios (tokens : TokenSet) : TokenSet :=
  { tokens with files := tokens.files.map TokenFile.withoutRatios }

private theorem Logged.forList_map {α β γ : Type} (items : List α) (g : α → β) (f : β → Logged γ) :
    forList (items.map g) f = forList items fun item => f (g item) := by
  simp [forList, List.flatMap_map, Function.comp_def]

variable {tokens others : TokenSet} {options : RatioOptions} {index : RatioIndex}
  {file : TokenFile} {token : Token} {key : CellKey}

/-! ## Ratios are not looked at -/

private theorem Sibling.sizeFor?_withoutRatio (stem : String) (token : Token) :
    sizeFor? stem token.withoutRatio = sizeFor? stem token := rfl

private theorem Sibling.fontSize?_withoutRatios (file : TokenFile) (stem : String) :
    fontSize? file.withoutRatios stem = fontSize? file stem := by
  simp only [fontSize?, TokenFile.withoutRatios, ← List.map_reverse, List.findSome?_map,
    Function.comp_def, sizeFor?_withoutRatio]

theorem Sibling.ratio?_withoutRatios (file : TokenFile) (token : Token) (height : Binary64) :
    ratio? file.withoutRatios token.withoutRatio height = ratio? file token height := by
  simp only [ratio?, fontSize?_withoutRatios]
  rfl

namespace Ratio

theorem ratio?_withoutRatios (index : RatioIndex) (options : RatioOptions) (file : TokenFile)
    (token : Token) : ratio? index options file.withoutRatios token.withoutRatio =
      ratio? index options file token := by
  funext height
  rw [ratio?, ratio?, Sibling.ratio?_withoutRatios]
  rfl

theorem outcome_withoutRatios (index : RatioIndex) (options : RatioOptions) (file : TokenFile)
    (token : Token) : outcome index options file.withoutRatios token.withoutRatio =
      outcome index options file token := by
  rw [outcome, outcome, ratio?_withoutRatios]
  rfl

private theorem reportToken_withoutRatios (file : TokenFile) (token : Token) (outcome : Outcome) :
    reportToken file.withoutRatios token.withoutRatio outcome = reportToken file token outcome := by
  cases outcome <;> rfl

theorem reportFile_withoutRatios (index : RatioIndex) (options : RatioOptions) (file : TokenFile) :
    reportFile index options file.withoutRatios = reportFile index options file := by
  have htokens : file.withoutRatios.tokens = file.tokens.map Token.withoutRatio := rfl
  simp only [reportFile, htokens, Logged.forList_map, outcome_withoutRatios,
    reportToken_withoutRatios]

theorem filesOf_withoutRatios (tokens : TokenSet) (key : CellKey) :
    tokens.withoutRatios.filesOf key = (tokens.filesOf key).map TokenFile.withoutRatios := by
  rw [TokenSet.filesOf, TokenSet.withoutRatios, List.filter_map]
  rfl

theorem reportCell_withoutRatios (tokens : TokenSet) (options : RatioOptions) (key : CellKey) :
    reportCell tokens.withoutRatios options key = reportCell tokens options key := by
  have hindex : RatioIndex.ofCell tokens.withoutRatios key = RatioIndex.ofCell tokens key := rfl
  ext1
  · rw [value_reportCell, value_reportCell, hindex, filesOf_withoutRatios, List.map_map]
    simp only [Function.comp_def, reportFile_withoutRatios]
  · rw [findings_reportCell, findings_reportCell, hindex, filesOf_withoutRatios, List.flatMap_map]
    simp only [reportFile_withoutRatios]

end Ratio

namespace TokenSet

open Ratio

theorem ratioCells_withoutRatios (tokens : TokenSet) :
    tokens.withoutRatios.ratioCells = tokens.ratioCells := by
  rw [ratioCells, withoutRatios, List.map_map]
  rfl

/-- Token sets that differ in ratios only have the same report, with the same findings. -/
theorem report_eq_of_withoutRatios_eq (options : RatioOptions)
    (h : others.withoutRatios = tokens.withoutRatios) :
    (others.attachRatios options).value.2 = (tokens.attachRatios options).value.2 ∧
      (others.attachRatios options).findings = (tokens.attachRatios options).findings := by
  have hcells : others.ratioCells = tokens.ratioCells := by
    rw [← ratioCells_withoutRatios, h, ratioCells_withoutRatios]
  have hreport : reportCell others options = reportCell tokens options := by
    funext key
    rw [← reportCell_withoutRatios, h, reportCell_withoutRatios]
  simp [value_attachRatios, findings_attachRatios, hcells, hreport]

end TokenSet

/-! ## Nothing but ratios is changed -/

namespace Ratio

theorem withoutRatio_apply (token : Token) (outcome : Outcome) :
    (apply token outcome).withoutRatio = token.withoutRatio := by
  cases outcome <;> rfl

private theorem apply_apply (token : Token) (outcome : Outcome) :
    apply (apply token outcome) outcome = apply token outcome := by
  cases outcome <;> rfl

theorem withoutRatios_attachTo (index : RatioIndex) (options : RatioOptions) (file : TokenFile) :
    (attachTo index options file).withoutRatios = file.withoutRatios := by
  simp only [TokenFile.withoutRatios, attachTo, List.map_map, Function.comp_def,
    withoutRatio_apply]

/-- In a file with its ratios the outcomes are the same as before. -/
theorem outcome_attachTo (index : RatioIndex) (options : RatioOptions) (file : TokenFile)
    (token : Token) (before : Outcome) :
    outcome index options (attachTo index options file) (apply token before) =
      outcome index options file token := by
  rw [← outcome_withoutRatios, withoutRatios_attachTo, withoutRatio_apply, outcome_withoutRatios]

private theorem attachTo_attachTo (index : RatioIndex) (options : RatioOptions) (file : TokenFile) :
    attachTo index options (attachTo index options file) = attachTo index options file := by
  rw [attachTo, TokenFile.mk.injEq]
  refine ⟨rfl, rfl, ?_⟩
  have htokens : (attachTo index options file).tokens = file.tokens.map fun token =>
      apply token (outcome index options file token) := rfl
  rw [htokens, List.map_map]
  refine List.map_congr_left fun token _ => ?_
  rw [Function.comp_apply, outcome_attachTo, apply_apply]

end Ratio

namespace TokenSet

open Ratio

theorem withoutRatios_attached (tokens : TokenSet) (options : RatioOptions) (file : TokenFile) :
    (tokens.attached options file).withoutRatios = file.withoutRatios := by
  unfold attached
  split
  · exact withoutRatios_attachTo _ _ _
  · rfl

theorem withoutRatios_attachRatios (tokens : TokenSet) (options : RatioOptions) :
    (tokens.attachRatios options).value.1.withoutRatios = tokens.withoutRatios := by
  rw [value_attachRatios, withoutRatios, withoutRatios, List.map_map]
  simp only [Function.comp_def, withoutRatios_attached]

/-- A file is attached ratios to by the composites of its cell, which stay. -/
theorem attached_attached (tokens : TokenSet) (options : RatioOptions) (file : TokenFile) :
    (tokens.attachRatios options).value.1.attached options (tokens.attached options file) =
      tokens.attached options file := by
  have hindex : RatioIndex.ofCell (tokens.attachRatios options).value.1 file.key =
      RatioIndex.ofCell tokens file.key := by
    rw [value_attachRatios]
    rfl
  by_cases hcell : file.key.mayHaveRatios
  · rw [attached, attached_key, if_pos hcell, hindex, attached, if_pos hcell, attachTo_attachTo]
  · rw [attached, attached_key, if_neg hcell]

/-- **To attach ratios once more changes nothing.**  The token set is the same again, with an equal
report and, for an accumulator that is empty each time, the same diagnostics. -/
theorem attachRatios_once_more (tokens : TokenSet) (options : RatioOptions) :
    let first := tokens.attachRatios options
    let second := first.value.1.attachRatios options
    second.value.1 = first.value.1 ∧ second.value.2 = first.value.2 ∧
      (Diagnostics.pushAll {} second.findings).entries =
        (Diagnostics.pushAll {} first.findings).entries := by
  dsimp only
  obtain ⟨hreport, hfindings⟩ :=
    report_eq_of_withoutRatios_eq options (withoutRatios_attachRatios tokens options)
  have hfiles : (tokens.attachRatios options).value.1.files =
      tokens.files.map (tokens.attached options) := by
    rw [value_attachRatios]
  have hagain : (tokens.attachRatios options).value.1.files.map
      ((tokens.attachRatios options).value.1.attached options) =
        (tokens.attachRatios options).value.1.files := by
    rw [hfiles, List.map_map]
    exact List.map_congr_left fun file _ => attached_attached tokens options file
  refine ⟨?_, hreport, ?_⟩
  · rw [value_attachRatios (tokens.attachRatios options).value.1, hagain]
  · rw [hfindings]

end TokenSet

end DesignTokens
