import DesignTokens.Proofs.Ratio.Accounting
import DesignTokens.Proofs.Ratio.Origin

/-!
# What the composites of a cell say with one voice

The closed form of an index (`RatioIndex.gathers_ofCell`) speaks of different ratios, which are
found by going through the composites.  They are what remains of all ratios when repeats are
removed, a ratio being a repeat if it is numerically equal to an earlier one
(`different_eq_eraseDupsBy`).  So a variable has a ratio if one remains, and it is in dispute if
more do.

The report on the cell says no more and no less than the index: one conflict for each variable in
dispute, with what remains of its ratios, and one finding beside it.
-/

namespace DesignTokens

/-! ## Different ratios are those without repeats -/

namespace RatioIndex

theorem different_eq_eraseDupsBy (ratios : List Binary64) :
    different ratios = ratios.eraseDupsBy Binary64.numericallyEqual := by
  -- the ratios that have been found are kept in reverse
  have hloop : ∀ found : List Binary64,
      ratios.foldl (fun found ratio => addDifferent ratio found) found.reverse =
        List.eraseDupsBy.loop Binary64.numericallyEqual ratios found := by
    induction ratios with
    | nil => exact fun found => rfl
    | cons ratio rest ih =>
        intro found
        have hany : (found.reverse.any fun known => known.numericallyEqual ratio) =
            found.any ratio.numericallyEqual := by
          rw [List.any_reverse]
          exact congrArg found.any (funext fun known => known.numericallyEqual_comm ratio)
        rw [List.foldl_cons, addDifferent, hany, List.eraseDupsBy.loop]
        cases found.any ratio.numericallyEqual with
        | true => exact ih found
        | false =>
            rw [if_neg Bool.false_ne_true, ← List.reverse_cons]
            exact ih (ratio :: found)
  exact hloop []

private theorem sole?_eq (found : List Binary64) :
    sole? found = if found.length = 1 then found.head? else none := by
  rcases found with _ | ⟨first, _ | ⟨second, rest⟩⟩
  · rfl
  · rfl
  · simp [sole?]

end RatioIndex

/-! ## Reporting disputes -/

namespace Ratio

variable (tokens : TokenSet) (options : RatioOptions) (key : CellKey)

/-- The finding about a variable in dispute. -/
def disputeFinding (key : CellKey) (dispute : Dispute) : Finding where
  kind := .ratioConflict
  subject := s!"[{key.text}] {dispute.id.text}"
  detail := String.intercalate " vs " (dispute.ratios.map Binary64.plainText)

/-- In one cell a finding says by its subject which variable it is about. -/
theorem subject_disputeFinding_eq_iff {key : CellKey} {dispute : Dispute} {id : VariableId} :
    (disputeFinding key dispute).subject = s!"[{key.text}] {id.text}" ↔ dispute.id = id := by
  constructor
  · intro h
    have htext : dispute.id.text = id.text := (String.append_right_inj _).mp h
    obtain ⟨text⟩ := id
    exact congrArg VariableId.mk htext
  · rintro rfl
    rfl

/-- The findings about ratios in conflict are those about the disputes of the index. -/
theorem findings_reportCell_of_conflict :
    ((reportCell tokens options key).findings.filter fun finding =>
        finding.kind = .ratioConflict) =
      (RatioIndex.ofCell tokens key).disputes.map (disputeFinding key) := by
  have hfile : ∀ file, ((reportFile (RatioIndex.ofCell tokens key) options file).findings.filter
      fun finding => finding.kind = .ratioConflict) = [] := by
    intro file
    have hsubjects := (RatioReport.Tallies.reportFile (RatioIndex.ofCell tokens key) options
      file).conflict_subjects
    rw [conflicts_reportFile] at hsubjects
    exact List.map_eq_nil_iff.mp hsubjects
  rw [findings_reportCell, List.filter_append, List.filter_flatMap, List.filter_flatMap,
    List.flatMap_eq_nil_iff.mpr fun file _ => hfile file, List.append_nil, List.map_eq_flatMap]
  rfl

private theorem conflicts_reportCell_about (id : VariableId) :
    ((reportCell tokens options key).value.conflicts.filter fun conflict => conflict.id = id) =
      ((RatioIndex.ofCell tokens key).disputes.filter fun dispute => dispute.id = id).map
        fun dispute => ⟨key, dispute.id, dispute.ratios⟩ := by
  rw [conflicts_reportCell, List.filter_map]
  rfl

private theorem findings_reportCell_about (id : VariableId) :
    ((reportCell tokens options key).findings.filter fun finding =>
        finding.kind = .ratioConflict ∧ finding.subject = s!"[{key.text}] {id.text}") =
      ((RatioIndex.ofCell tokens key).disputes.filter fun dispute => dispute.id = id).map
        (disputeFinding key) := by
  have hboth : ∀ finding : Finding, decide (finding.kind = .ratioConflict ∧
      finding.subject = s!"[{key.text}] {id.text}") =
        (decide (finding.subject = s!"[{key.text}] {id.text}") &&
          decide (finding.kind = .ratioConflict)) := by
    intro finding
    rw [Bool.decide_and, Bool.and_comm]
  simp only [hboth]
  rw [← List.filter_filter, findings_reportCell_of_conflict, List.filter_map]
  refine congrArg (List.map _) (List.filter_congr fun dispute _ => ?_)
  exact decide_eq_decide.mpr subject_disputeFinding_eq_iff

end Ratio

/-! ## What a cell keeps -/

/-- **A cell keeps what its composites agree on.**  The ratio of a composite is its line height by
its font size, to three decimals, if both are known and the size is positive.  Of the ratios that
the composites give to a variable, in order, let repeats be removed.  If one ratio is left, the
variable has it, and otherwise it has none; if there are more, the report on the cell lists one
conflict about the variable, with these ratios, and there is one finding about it.  Line heights are
told apart by their hundredths, rounded to whole numbers.  Of the ratios of the composites with a
line height of some hundredths, in order, the index has the first if all others are equal to that,
and a mark for their being ambiguous if they are not. -/
theorem TokenSet.cell_keeps_agreed (tokens : TokenSet) (options : RatioOptions) (key : CellKey)
    (id : VariableId) :
    let composites := tokens.compositesOf key
    let index := RatioIndex.ofCell tokens key
    let report := Ratio.reportCell tokens options key
    let ratioOf (t : Typography) : Option Binary64 := do
      let size ← t.fontSize.value
      let height ← t.lineHeight.value
      if size ≤ 0 then none else some ((height / size * 1000).round / 1000)
    let ratios := (composites.filterMap fun composite =>
      if composite.typography.lineHeight.boundTo? = some id then ratioOf composite.typography
      else none).eraseDupsBy Binary64.numericallyEqual
    index.ratioOf? id = (if ratios.length = 1 then ratios.head? else none) ∧
      (report.value.conflicts.filter fun conflict => conflict.id = id) =
        (if 2 ≤ ratios.length then [⟨key, id, ratios⟩] else []) ∧
      (report.findings.filter fun finding => finding.kind = .ratioConflict ∧
          finding.subject = s!"[{key.text}] {id.text}") =
        (if 2 ≤ ratios.length then [⟨.ratioConflict, s!"[{key.text}] {id.text}",
          String.intercalate " vs " (ratios.map Binary64.plainText)⟩] else []) ∧
      ∀ hundredths : Int, index.byValue.get? hundredths =
        match composites.filterMap fun composite =>
          if (composite.typography.lineHeight.value.map fun height =>
              (height * 100).round.toIntClamped (-Int.pow 2 63) (Int.pow 2 63 - 1)) =
              some hundredths then
            ratioOf composite.typography
          else none with
        | [] => none
        | first :: rest => some (if rest.all first.numericallyEqual then some first else none) := by
  intro composites index report ratioOf ratios
  -- the index is what folding in the composites, one after the other, has gathered
  have gathers := RatioIndex.gathers_ofCell tokens key
  have hratios : RatioIndex.different (composites.filterMap (RatioIndex.ratioFor? id)) = ratios :=
    RatioIndex.different_eq_eraseDupsBy _
  have hratio := (gathers.knows id).ratioOf?_eq
  -- conflicts and findings both follow the disputes, of which at most one is about the variable
  have habout : (index.disputes.filter fun dispute => dispute.id = id) =
      if 2 ≤ ratios.length then [⟨id, ratios⟩] else [] := by
    rw [← hratios]
    exact gathers.filter_disputes id
  rw [hratios] at hratio
  refine ⟨hratio.trans (RatioIndex.sole?_eq _), ?_, ?_, ?_⟩
  · rw [Ratio.conflicts_reportCell_about, habout]
    split
    · rfl
    · rfl
  · rw [Ratio.findings_reportCell_about, habout]
    split
    · rfl
    · rfl
  · intro hundredths
    have hslot : index.byValue.get? hundredths =
        RatioIndex.slot (composites.filterMap (RatioIndex.ratioAt? hundredths)) :=
      gathers.get?_eq hundredths
    show _ = match composites.filterMap (RatioIndex.ratioAt? hundredths) with
      | [] => none
      | first :: rest => some (if rest.all first.numericallyEqual then some first else none)
    rw [hslot, RatioIndex.slot]
    cases composites.filterMap (RatioIndex.ratioAt? hundredths) with
    | nil => rfl
    | cons first rest => rw [if_neg (List.cons_ne_nil _ _), RatioIndex.agreed?_cons]

namespace Sample

/-- A composite of a font size and a line height that is bound to a variable. -/
def composed (size height : Binary64) (id : VariableId) : TypographyToken where
  key := .ofBrandBreakpoint "core" "large"
  styleId := "style"
  name := "Style"
  typography :=
    { fontSize := .literal size
      lineHeight := .bound (some height) ⟨id, id.text, none⟩ }

/-- The first variable gets a ratio, loses it to a dispute and is then given the first ratio again.
The line height of the other one has three decimals, and its ratio has more.  The composite of
another cell is not asked. -/
def disputants : TokenSet where
  typography := [composed 16 24 ⟨"tight"⟩, composed 20 24 ⟨"tight"⟩,
    composed 18 (25004 / 1000) ⟨"loose"⟩, composed 16 24 ⟨"tight"⟩,
    { composed 16 24 ⟨"loose"⟩ with key := .ofBrandBreakpoint "core" "small" }]

/-- The dispute is over one variable and over one of the two line heights.  The other one is found
under its hundredths, with its ratio to three decimals. -/
theorem cell_keeps_agreed_among_disputants :
    let key := CellKey.ofBrandBreakpoint "core" "large"
    let index := RatioIndex.ofCell disputants key
    let report := Ratio.reportCell disputants {} key
    index.ratioOf? ⟨"tight"⟩ = none ∧ index.ratioOf? ⟨"loose"⟩ = some (1389 / 1000) ∧
      (report.value.conflicts.filter fun conflict => conflict.id = ⟨"tight"⟩) =
        [⟨key, ⟨"tight"⟩, [3 / 2, 6 / 5]⟩] ∧
      (report.value.conflicts.filter fun conflict => conflict.id = ⟨"loose"⟩) = [] ∧
      index.byValue.get? 2400 = some none ∧
      index.byValue.get? 2500 = some (some (1389 / 1000)) ∧
      index.byValue.get? 2000 = none := by
  intro key index report
  obtain ⟨htight, htightConflicts, -, hvalues⟩ :=
    TokenSet.cell_keeps_agreed disputants {} key ⟨"tight"⟩
  obtain ⟨hloose, hlooseConflicts, -, -⟩ :=
    TokenSet.cell_keeps_agreed disputants {} key ⟨"loose"⟩
  refine ⟨htight.trans ?_, hloose.trans ?_, htightConflicts.trans ?_, hlooseConflicts.trans ?_,
    (hvalues 2400).trans ?_, (hvalues 2500).trans ?_, (hvalues 2000).trans ?_⟩ <;>
    decide +kernel

end Sample

end DesignTokens
