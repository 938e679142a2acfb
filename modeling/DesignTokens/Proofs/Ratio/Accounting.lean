import DesignTokens.Proofs.Diagnostics
import DesignTokens.Proofs.Ratio.Attachment
import DesignTokens.Proofs.Ratio.Report
import Mathlib.Algebra.BigOperators.Group.Multiset.Basic
import Mathlib.Algebra.Order.Group.Multiset

/-!
# Every line height is accounted for

The report on a token set is put together cell by cell, over cells that come from the keys of the
composites and of the files.  Nevertheless each line height is reported on exactly once, however
often keys, files and paths are repeated: the files of the cells are, up to their order, the files
that may have ratios (`TokenSet.filesOf_ratioCells_perm`).  So whatever adds up over reports adds up
over the line heights (`RatioReport.Additive.value_attachRatios`), and the counters and the list of
unmatched line heights are cases of that.

The findings are counted beside the report (`RatioReport.Tallies`): one for each unmatched line
height, one for each dispute, and no others.
-/

namespace DesignTokens

/-! ## Line heights -/

namespace Outcome

/-- The ratio that a token has after an outcome, if it had a given one before. -/
def ratioAfter (before : Option LineHeightRatio) : Outcome → Option LineHeightRatio
  | .assigned ratio => some ratio
  | .untouched | .symbolic | .unmatched => before

/-- Whether a ratio is assigned by some reasoning. -/
def isAssignedBy (source : RatioSource) : Outcome → Bool
  | .assigned ratio => ratio.source == source
  | .untouched | .symbolic | .unmatched => false

private theorem isAssignedBy_eq_any (source : RatioSource) (outcome : Outcome) :
    outcome.isAssignedBy source =
      (outcome.ratioAfter none).any fun ratio => ratio.source = source := by
  cases outcome <;> rfl

/-- What becomes of line heights: some reasoning gives a ratio, none is needed, or none is found. -/
theorem length_eq_sum_counts {outcomes : List Outcome} (h : .untouched ∉ outcomes) :
    outcomes.countP (isAssignedBy .identity) + outcomes.countP (isAssignedBy .namePattern) +
      outcomes.countP (isAssignedBy .valuePattern) + outcomes.count .symbolic +
        outcomes.count .unmatched = outcomes.length := by
  induction outcomes with
  | nil => rfl
  | cons outcome rest ih =>
      have hrest := ih fun hmem => h (List.mem_cons_of_mem _ hmem)
      rcases outcome with _ | _ | ⟨ratio, _ | _ | _⟩ | _
      case untouched => exact absurd List.mem_cons_self h
      all_goals
        simp [isAssignedBy]
        omega

end Outcome

namespace TokenSet

/-- The line heights in files of cells of brand and breakpoint. -/
def lineHeights (tokens : TokenSet) : List (TokenFile × Token) :=
  (tokens.files.filter fun file => file.key.mayHaveRatios).flatMap fun file =>
    (file.tokens.filter Token.isLineHeight).map fun token => (file, token)

/-- What becomes of a line height. -/
def outcomeOf (tokens : TokenSet) (options : RatioOptions) (entry : TokenFile × Token) : Outcome :=
  Ratio.outcome (.ofCell tokens entry.1.key) options entry.1 entry.2

def outcomes (tokens : TokenSet) (options : RatioOptions) : List Outcome :=
  tokens.lineHeights.map (tokens.outcomeOf options)

/-- The line heights that no reasoning gives a ratio. -/
def unmatched (tokens : TokenSet) (options : RatioOptions) : List UnmatchedToken :=
  (tokens.lineHeights.filter fun entry => tokens.outcomeOf options entry = .unmatched).map
    fun entry => ⟨entry.1.key, entry.1.scope, entry.2.path⟩

variable {tokens : TokenSet} {options : RatioOptions} {entry : TokenFile × Token}

theorem mem_lineHeights_iff : entry ∈ tokens.lineHeights ↔
    entry.1 ∈ tokens.files ∧ entry.1.key.mayHaveRatios ∧
      entry.2 ∈ entry.1.tokens ∧ entry.2.isLineHeight := by
  obtain ⟨file, token⟩ := entry
  simp [lineHeights, and_assoc]

private theorem outcomeOf_of_symbolic (hheight : entry.2.isLineHeight) {endpoint : Endpoint}
    (hendpoint : entry.2.endpoint = some endpoint) (hsymbolic : endpoint.isSymbolic) :
    tokens.outcomeOf options entry = .symbolic := by
  simp [outcomeOf, Ratio.outcome, hheight, hendpoint, hsymbolic]

private theorem outcomeOf_ne_untouched (hheight : entry.2.isLineHeight) :
    tokens.outcomeOf options entry ≠ .untouched := by
  rw [outcomeOf, Ratio.outcome, if_pos hheight]
  split
  · simp
  · split <;> simp

/-! ## Nothing else is touched -/

private theorem lineHeightRatio_apply (token : Token) (outcome : Outcome) :
    (Ratio.apply token outcome).lineHeightRatio = outcome.ratioAfter token.lineHeightRatio := by
  cases outcome <;> rfl

private theorem apply_outcome (index : RatioIndex) (options : RatioOptions) (file : TokenFile)
    (token : Token) :
    Ratio.apply token (Ratio.outcome index options file token) =
      if token.isLineHeight then
        { token with lineHeightRatio :=
            (Ratio.outcome index options file token).ratioAfter token.lineHeightRatio }
      else token := by
  split
  · cases Ratio.outcome index options file token <;> rfl
  · next h => simp [Ratio.outcome, h, Ratio.apply]

/-- Attaching ratios sets the ratios of line heights and leaves all else as it is. -/
theorem tokens_attachRatios_eq (tokens : TokenSet) (options : RatioOptions) :
    (tokens.attachRatios options).value.1 =
      { tokens with files := tokens.files.map fun file =>
          { file with tokens := file.tokens.map fun token =>
              if file.key.mayHaveRatios ∧ token.isLineHeight then
                { token with lineHeightRatio :=
                    (tokens.outcomeOf options (file, token)).ratioAfter token.lineHeightRatio }
              else token } } := by
  rw [value_attachRatios, TokenSet.mk.injEq]
  refine ⟨List.map_congr_left fun file _ => ?_, rfl, rfl, rfl, rfl⟩
  unfold attached
  by_cases hkey : file.key.mayHaveRatios
  · simp only [hkey, if_true, Ratio.attachTo, apply_outcome, true_and]
    rfl
  · simp [hkey]

private theorem lineHeights_attachRatios (tokens : TokenSet) (options : RatioOptions) :
    (tokens.attachRatios options).value.1.lineHeights = tokens.lineHeights.map fun entry =>
      (tokens.attached options entry.1, Ratio.apply entry.2 (tokens.outcomeOf options entry)) := by
  have htype : ∀ token outcome, (Ratio.apply token outcome).isLineHeight = token.isLineHeight := by
    intro token outcome
    cases outcome <;> rfl
  rw [value_attachRatios]
  simp only [lineHeights, List.filter_map, List.flatMap_map, List.map_flatMap, Function.comp_def,
    attached_key, List.map_map]
  refine List.flatMap_congr fun file hfile => ?_
  have hkey := (List.mem_filter.mp hfile).2
  have htokens : (tokens.attached options file).tokens = file.tokens.map fun token =>
      Ratio.apply token (tokens.outcomeOf options (file, token)) := by
    rw [attached, if_pos hkey]
    rfl
  rw [htokens, List.filter_map, List.map_map]
  simp only [Function.comp_def, htype]

/-! ## Cell by cell is file by file -/

/-- The files of the cells that are reported on are the files that may have ratios. -/
theorem filesOf_ratioCells_perm (tokens : TokenSet) :
    (tokens.ratioCells.flatMap tokens.filesOf).Perm
      (tokens.files.filter fun file => file.key.mayHaveRatios) := by
  refine (flatMap_filter_perm TokenFile.key tokens.files tokens.nodup_ratioCells).trans (.of_eq ?_)
  refine List.filter_congr fun file hfile => ?_
  have hcell : file.key ∈ tokens.ratioCells ↔ file.key.mayHaveRatios :=
    mem_ratioCells_iff.trans (and_iff_left (.inr ⟨file, hfile, rfl⟩))
  simp [hcell]

end TokenSet

/-! ## What adds up over reports -/

namespace RatioReport

/-- A measure of reports adds up, and disputes do not count. -/
structure Additive {M : Type} [AddCommMonoid M] (measure : RatioReport → M) : Prop where
  empty : measure {} = 0
  append : ∀ report other, measure (report.append other) = measure report + measure other
  dispute : ∀ key dispute, measure (Ratio.reportDispute key dispute).value = 0

namespace Additive

variable {M : Type} [AddCommMonoid M] {measure : RatioReport → M}

theorem sum (h : Additive measure) (reports : List RatioReport) :
    measure (.sum reports) = (reports.map measure).sum := by
  have hfold : ∀ start,
      measure (reports.foldl RatioReport.append start) =
        measure start + (reports.map measure).sum := by
    induction reports with
    | nil => simp
    | cons report rest ih =>
        intro start
        rw [List.foldl_cons, ih, h.append, List.map_cons, List.sum_cons, add_assoc]
  rw [RatioReport.sum, hfold, h.empty, zero_add]

theorem reportFile (h : Additive measure) (index : RatioIndex) (options : RatioOptions)
    (file : TokenFile) :
    measure (Ratio.reportFile index options file).value =
      ((file.tokens.filter Token.isLineHeight).map fun token =>
        measure (Ratio.reportToken file token
          (Ratio.outcome index options file token)).value).sum := by
  rw [Ratio.value_reportFile, h.sum, List.map_map]
  induction file.tokens with
  | nil => rfl
  | cons token rest ih =>
      by_cases hheight : token.isLineHeight
      · simp [hheight, ih]
      · have huntouched : Ratio.outcome index options file token = .untouched := by
          simp [Ratio.outcome, hheight]
        have hempty : measure (Ratio.reportToken file token .untouched).value = 0 := h.empty
        simp [hheight, ih, huntouched, hempty]

theorem reportCell (h : Additive measure) (tokens : TokenSet) (options : RatioOptions)
    (key : CellKey) :
    measure (Ratio.reportCell tokens options key).value =
      ((tokens.filesOf key).map fun file =>
        measure (Ratio.reportFile (.ofCell tokens file.key) options file).value).sum := by
  have hkey : ∀ file ∈ tokens.filesOf key,
      measure (Ratio.reportFile (.ofCell tokens key) options file).value =
        measure (Ratio.reportFile (.ofCell tokens file.key) options file).value := by
    intro file hfile
    have hkey : file.key = key := by simpa [TokenSet.filesOf] using (List.mem_filter.mp hfile).2
    rw [hkey]
  rw [Ratio.value_reportCell, h.sum, List.map_append, List.sum_append, List.map_map, List.map_map]
  rw [List.sum_eq_zero (by simp [h.dispute]), zero_add]
  exact congrArg List.sum (List.map_congr_left hkey)

/-- What adds up over reports adds up over the line heights. -/
theorem value_attachRatios (h : Additive measure) (tokens : TokenSet) (options : RatioOptions) :
    measure (tokens.attachRatios options).value.2 =
      (tokens.lineHeights.map fun entry =>
        measure (Ratio.reportToken entry.1 entry.2
          (tokens.outcomeOf options entry)).value).sum := by
  let ofFile (file : TokenFile) : M :=
    measure (Ratio.reportFile (.ofCell tokens file.key) options file).value
  calc measure (tokens.attachRatios options).value.2
      = ((tokens.ratioCells.flatMap tokens.filesOf).map ofFile).sum := by
        rw [TokenSet.value_attachRatios, h.sum, List.map_map, List.map_flatMap, List.flatMap_def,
          List.sum_flatten, List.map_map]
        exact congrArg List.sum (List.map_congr_left fun key _ => h.reportCell tokens options key)
    _ = ((tokens.files.filter fun file => file.key.mayHaveRatios).map ofFile).sum :=
        (tokens.filesOf_ratioCells_perm.map ofFile).sum_eq
    _ = _ := by
        rw [TokenSet.lineHeights, List.map_flatMap, List.flatMap_def, List.sum_flatten,
          List.map_map]
        refine congrArg List.sum (List.map_congr_left fun file _ => ?_)
        rw [Function.comp_apply, List.map_map]
        exact h.reportFile _ options file

end Additive

/-! ## The counters and the list -/

/-- A sum in which only some members count is the sum of those members. -/
theorem sum_map_ite {α M : Type} [AddCommMonoid M] (test : α → Bool) (f : α → M) (items : List α) :
    (items.map fun item => if test item then f item else 0).sum =
      ((items.filter test).map f).sum := by
  induction items with
  | nil => rfl
  | cons item rest ih => cases h : test item <;> simp [h, ih]

/-- A counter that goes up by one at some outcomes counts them. -/
theorem Additive.count {counter : RatioReport → Nat} (h : Additive counter)
    {counts : Outcome → Bool}
    (hcounts : ∀ file token outcome, counter (Ratio.reportToken file token outcome).value =
      if counts outcome then 1 else 0) (tokens : TokenSet) (options : RatioOptions) :
    counter (tokens.attachRatios options).value.2 = (tokens.outcomes options).countP counts := by
  rw [h.value_attachRatios, TokenSet.outcomes, List.countP_map, List.countP_eq_length_filter]
  simp only [hcounts]
  rw [sum_map_ite, List.map_const', List.sum_replicate_nat, Nat.mul_one]
  rfl

variable (tokens : TokenSet) (options : RatioOptions)

theorem identity_attachRatios : (tokens.attachRatios options).value.2.identity =
    (tokens.outcomes options).countP (Outcome.isAssignedBy .identity) := by
  refine Additive.count ⟨rfl, fun _ _ => rfl, fun _ _ => rfl⟩ ?_ tokens options
  rintro file token (_ | _ | ⟨ratio, _ | _ | _⟩ | _) <;> rfl

theorem namePattern_attachRatios : (tokens.attachRatios options).value.2.namePattern =
    (tokens.outcomes options).countP (Outcome.isAssignedBy .namePattern) := by
  refine Additive.count ⟨rfl, fun _ _ => rfl, fun _ _ => rfl⟩ ?_ tokens options
  rintro file token (_ | _ | ⟨ratio, _ | _ | _⟩ | _) <;> rfl

theorem valuePattern_attachRatios : (tokens.attachRatios options).value.2.valuePattern =
    (tokens.outcomes options).countP (Outcome.isAssignedBy .valuePattern) := by
  refine Additive.count ⟨rfl, fun _ _ => rfl, fun _ _ => rfl⟩ ?_ tokens options
  rintro file token (_ | _ | ⟨ratio, _ | _ | _⟩ | _) <;> rfl

theorem symbolic_attachRatios : (tokens.attachRatios options).value.2.symbolic =
    (tokens.outcomes options).count .symbolic := by
  refine Additive.count ⟨rfl, fun _ _ => rfl, fun _ _ => rfl⟩ ?_ tokens options
  rintro file token (_ | _ | ⟨ratio, _ | _ | _⟩ | _) <;> rfl

private theorem length_unmatched : (tokens.unmatched options).length =
    (tokens.outcomes options).count .unmatched := by
  rw [TokenSet.unmatched, List.length_map, TokenSet.outcomes, List.count, List.countP_map,
    List.countP_eq_length_filter]
  rfl

theorem unmatched_attachRatios_perm :
    (tokens.attachRatios options).value.2.unmatched.Perm (tokens.unmatched options) := by
  have hadditive : Additive fun report => (report.unmatched : Multiset UnmatchedToken) :=
    ⟨rfl, fun _ _ => (Multiset.coe_add _ _).symm, fun _ _ => rfl⟩
  have hentry : ∀ entry : TokenFile × Token,
      ((Ratio.reportToken entry.1 entry.2 (tokens.outcomeOf options entry)).value.unmatched :
        Multiset UnmatchedToken) = if tokens.outcomeOf options entry = .unmatched then
          {⟨entry.1.key, entry.1.scope, entry.2.path⟩} else 0 := by
    intro entry
    rcases tokens.outcomeOf options entry with _ | _ | ⟨ratio, _ | _ | _⟩ | _ <;> rfl
  refine Multiset.coe_eq_coe.mp ((hadditive.value_attachRatios tokens options).trans ?_)
  have hsingletons : ∀ entries : List UnmatchedToken,
      (entries.map fun entry => ({entry} : Multiset UnmatchedToken)).sum = entries := by
    intro entries
    induction entries with
    | nil => rfl
    | cons entry rest ih => rw [List.map_cons, List.sum_cons, ih, Multiset.singleton_add]; rfl
  rw [TokenSet.unmatched, ← hsingletons, List.map_map, ← sum_map_ite]
  exact congrArg List.sum (List.map_congr_left fun entry _ => by simp [hentry])

end RatioReport

/-! ## Findings beside reports -/

/-- What the finding about a dispute is about. -/
def RatioConflict.subject (conflict : RatioConflict) : String :=
  s!"[{conflict.key.text}] {conflict.id.text}"

/-- What the finding about an unmatched line height is about. -/
def UnmatchedToken.subject (token : UnmatchedToken) : String :=
  s!"[{token.key.text}] {token.path}"

/-- The findings beside a report: one for each unmatched line height and for each dispute, in the
order of the report. -/
structure RatioReport.Tallies (report : RatioReport) (findings : List Finding) : Prop where
  unmatched_subjects : (findings.filter fun finding => finding.kind = .missingRatio).map
    Finding.subject = report.unmatched.map UnmatchedToken.subject
  conflict_subjects : (findings.filter fun finding => finding.kind = .ratioConflict).map
    Finding.subject = report.conflicts.map RatioConflict.subject
  kinds : ∀ finding ∈ findings, finding.kind = .missingRatio ∨ finding.kind = .ratioConflict

namespace RatioReport.Tallies

theorem unmatched {report : RatioReport} {findings : List Finding}
    (tallies : Tallies report findings) :
    (findings.countP fun finding => finding.kind = .missingRatio) = report.unmatched.length := by
  rw [List.countP_eq_length_filter, ← List.length_map Finding.subject, tallies.unmatched_subjects,
    List.length_map]

theorem conflicts {report : RatioReport} {findings : List Finding}
    (tallies : Tallies report findings) :
    (findings.countP fun finding => finding.kind = .ratioConflict) = report.conflicts.length := by
  rw [List.countP_eq_length_filter, ← List.length_map Finding.subject, tallies.conflict_subjects,
    List.length_map]

theorem sum (parts : List (Logged RatioReport))
    (h : ∀ part ∈ parts, Tallies part.value part.findings) :
    Tallies (.sum (parts.map Logged.value)) (parts.flatMap Logged.findings) where
  unmatched_subjects := by
    rw [unmatched_sum, List.filter_flatMap, List.map_flatMap, List.map_flatMap, List.flatMap_map]
    exact List.flatMap_congr fun part hpart => (h part hpart).unmatched_subjects
  conflict_subjects := by
    rw [conflicts_sum, List.filter_flatMap, List.map_flatMap, List.map_flatMap, List.flatMap_map]
    exact List.flatMap_congr fun part hpart => (h part hpart).conflict_subjects
  kinds := by
    intro finding hfinding
    obtain ⟨part, hpart, hmem⟩ := List.mem_flatMap.mp hfinding
    exact (h part hpart).kinds finding hmem

theorem reportToken (file : TokenFile) (token : Token) (outcome : Outcome) :
    Tallies (Ratio.reportToken file token outcome).value
      (Ratio.reportToken file token outcome).findings := by
  rcases outcome with _ | _ | ⟨ratio, _ | _ | _⟩ | _
  case unmatched =>
    exact ⟨rfl, rfl, by simp [Ratio.reportToken, Logged.note, Ratio.unmatchedFinding]⟩
  all_goals exact ⟨rfl, rfl, by simp [Ratio.reportToken]⟩

theorem reportDispute (key : CellKey) (dispute : Dispute) :
    Tallies (Ratio.reportDispute key dispute).value (Ratio.reportDispute key dispute).findings :=
  ⟨rfl, rfl, by simp [Ratio.reportDispute, Logged.note]⟩

theorem reportFile (index : RatioIndex) (options : RatioOptions) (file : TokenFile) :
    Tallies (Ratio.reportFile index options file).value
      (Ratio.reportFile index options file).findings := by
  have htokens := sum (file.tokens.map fun token =>
    Ratio.reportToken file token (Ratio.outcome index options file token))
    (by simp [reportToken])
  rw [Ratio.value_reportFile, Ratio.findings_reportFile]
  simpa [List.flatMap_map, Function.comp_def] using htokens

theorem reportCell (tokens : TokenSet) (options : RatioOptions) (key : CellKey) :
    Tallies (Ratio.reportCell tokens options key).value
      (Ratio.reportCell tokens options key).findings := by
  let index := RatioIndex.ofCell tokens key
  have hparts := sum (index.disputes.map (Ratio.reportDispute key) ++
    (tokens.filesOf key).map (Ratio.reportFile index options)) (by
      intro part hpart
      rcases List.mem_append.mp hpart with hpart | hpart
      · obtain ⟨dispute, -, rfl⟩ := List.mem_map.mp hpart
        exact reportDispute key dispute
      · obtain ⟨file, -, rfl⟩ := List.mem_map.mp hpart
        exact reportFile index options file)
  rw [Ratio.value_reportCell, Ratio.findings_reportCell]
  simpa [List.flatMap_map, Function.comp_def, index] using hparts

theorem attachRatios (tokens : TokenSet) (options : RatioOptions) :
    Tallies (tokens.attachRatios options).value.2 (tokens.attachRatios options).findings := by
  have hcells := sum (tokens.ratioCells.map (Ratio.reportCell tokens options))
    (by simp [reportCell])
  rw [TokenSet.value_attachRatios, TokenSet.findings_attachRatios]
  simpa [List.flatMap_map, Function.comp_def] using hcells

end RatioReport.Tallies

/-! ## The accounts -/

theorem CollectionKind.isSymbolic_iff {kind : CollectionKind} :
    kind.isSymbolic ↔ (∃ axis, kind = .semantic axis) ∨ kind = .density := by
  cases kind <;> simp [isSymbolic]

namespace TokenSet

variable {tokens : TokenSet} {options : RatioOptions}

private theorem untouched_not_mem_outcomes : .untouched ∉ tokens.outcomes options := by
  intro hmem
  obtain ⟨entry, hentry, heq⟩ := List.mem_map.mp hmem
  exact outcomeOf_ne_untouched (mem_lineHeights_iff.mp hentry).2.2.2 heq

/-- The counters and the list leave out no line height. -/
theorem sum_counts_attachRatios (tokens : TokenSet) (options : RatioOptions) :
    (tokens.attachRatios options).value.2.identity +
      (tokens.attachRatios options).value.2.namePattern +
        (tokens.attachRatios options).value.2.valuePattern +
          (tokens.attachRatios options).value.2.symbolic +
            (tokens.attachRatios options).value.2.unmatched.length = tokens.lineHeights.length := by
  rw [RatioReport.identity_attachRatios, RatioReport.namePattern_attachRatios,
    RatioReport.valuePattern_attachRatios, RatioReport.symbolic_attachRatios,
    (RatioReport.unmatched_attachRatios_perm tokens options).length_eq,
    RatioReport.length_unmatched, Outcome.length_eq_sum_counts untouched_not_mem_outcomes]
  exact List.length_map _

/-- Where no line height had a ratio before, the ratios of a token set are the assigned ones. -/
theorem countP_outcomes_of_none
    (hbefore : ∀ entry ∈ tokens.lineHeights, entry.2.lineHeightRatio = none)
    (source : RatioSource) :
    (tokens.outcomes options).countP (Outcome.isAssignedBy source) =
      (tokens.attachRatios options).value.1.lineHeights.countP fun entry =>
        entry.2.lineHeightRatio.any fun ratio => ratio.source = source := by
  rw [lineHeights_attachRatios, List.countP_map]
  refine List.countP_map.trans (List.countP_congr fun entry hentry => ?_)
  rw [Function.comp_apply, Function.comp_apply, lineHeightRatio_apply, hbefore entry hentry,
    Outcome.isAssignedBy_eq_any]

private theorem ofKind_attachRatios (ds : Diagnostics) {kind : FindingKind}
    (hmissing : kind ≠ .missingRatio) (hconflict : kind ≠ .ratioConflict) :
    (ds.pushAll (tokens.attachRatios options).findings).ofKind kind = ds.ofKind kind := by
  refine Diagnostics.ofKind_pushAll_of_ne ds fun finding hfinding => ?_
  rcases (RatioReport.Tallies.attachRatios tokens options).kinds finding hfinding with h | h
  · exact h ▸ hmissing.symm
  · exact h ▸ hconflict.symm

/-- **Every line height is accounted for, and nothing else is touched.**

* The token set differs from the given one by the ratios of line heights in cells of brand and
  breakpoint: those that are assigned one have it.
* The counters are the numbers of line heights with a ratio by each reasoning and of those that need
  none, the list holds those that are left without, and together these are all.  Where no line
  height had a ratio before, the ratios that the token set then has are as many as the counters say.
* A line height whose endpoint is in a semantic or in the density layer needs no ratio, and one
  without a number for a value is never assigned one.
* Diagnostics gain an occurrence for each unmatched line height and for each dispute, and none of
  any other kind. -/
theorem attachRatios_accounts (tokens : TokenSet) (options : RatioOptions) (ds : Diagnostics) :
    let after := (tokens.attachRatios options).value.1
    let report := (tokens.attachRatios options).value.2
    let gathered := ds.pushAll (tokens.attachRatios options).findings
    let outcomes := tokens.outcomes options
    after = { tokens with files := tokens.files.map fun file =>
        { file with tokens := file.tokens.map fun token =>
            if file.key.mayHaveRatios ∧ token.isLineHeight then
              { token with lineHeightRatio :=
                  (tokens.outcomeOf options (file, token)).ratioAfter token.lineHeightRatio }
            else token } } ∧
      (report.identity = outcomes.countP (Outcome.isAssignedBy .identity) ∧
        report.namePattern = outcomes.countP (Outcome.isAssignedBy .namePattern) ∧
        report.valuePattern = outcomes.countP (Outcome.isAssignedBy .valuePattern) ∧
        report.symbolic = outcomes.count .symbolic ∧
        report.unmatched.Perm (tokens.unmatched options) ∧
        report.identity + report.namePattern + report.valuePattern + report.symbolic +
          report.unmatched.length = tokens.lineHeights.length ∧
        ((∀ entry ∈ tokens.lineHeights, entry.2.lineHeightRatio = none) →
          ∀ source, outcomes.countP (Outcome.isAssignedBy source) =
            after.lineHeights.countP fun entry =>
              entry.2.lineHeightRatio.any fun ratio => ratio.source = source)) ∧
      (∀ entry ∈ tokens.lineHeights,
        (∀ endpoint, entry.2.endpoint = some endpoint →
          ((∃ axis, endpoint.kind = .semantic axis) ∨ endpoint.kind = .density) →
            tokens.outcomeOf options entry = .symbolic) ∧
        (entry.2.value.float? = none → ∀ ratio, tokens.outcomeOf options entry ≠ .assigned ratio)) ∧
      (gathered.occurrences .missingRatio =
          ds.occurrences .missingRatio + report.unmatched.length ∧
        gathered.occurrences .ratioConflict =
          ds.occurrences .ratioConflict + report.conflicts.length ∧
        ∀ kind, kind ≠ .missingRatio → kind ≠ .ratioConflict →
          gathered.ofKind kind = ds.ofKind kind) := by
  intro after report gathered outcomes
  have htallies := RatioReport.Tallies.attachRatios tokens options
  refine ⟨tokens.tokens_attachRatios_eq options, ⟨?_, ?_, ?_, ?_, ?_, ?_, ?_⟩, ?_, ?_, ?_, ?_⟩
  · exact RatioReport.identity_attachRatios tokens options
  · exact RatioReport.namePattern_attachRatios tokens options
  · exact RatioReport.valuePattern_attachRatios tokens options
  · exact RatioReport.symbolic_attachRatios tokens options
  · exact RatioReport.unmatched_attachRatios_perm tokens options
  · exact tokens.sum_counts_attachRatios options
  · exact countP_outcomes_of_none
  · intro entry hentry
    have hheight := (mem_lineHeights_iff.mp hentry).2.2.2
    -- a layer that varies is asked for first, and only a number can be given a ratio
    constructor
    · intro endpoint hendpoint hkind
      exact outcomeOf_of_symbolic hheight hendpoint (CollectionKind.isSymbolic_iff.mpr hkind)
    · intro hvalue ratio hassigned
      obtain ⟨-, -, height, hheight, -⟩ := Ratio.outcome_eq_assigned_iff.mp hassigned
      rw [hvalue] at hheight
      cases hheight
  · rw [Diagnostics.occurrences_pushAll, htallies.unmatched]
  · rw [Diagnostics.occurrences_pushAll, htallies.conflicts]
  · exact fun kind hmissing hconflict => ofKind_attachRatios ds hmissing hconflict

end TokenSet

namespace Sample

def number (path : String) (x : Binary64) : Token where
  path
  id := ⟨path⟩
  type := .float
  value := .float x
  chain := [⟨path⟩]

def darkCore : CellKey := .ofBrandColorMode "core" "dark"

/-- Three files of one cell, two of them the same, between primitives and the file of a color
mode. -/
def buttons : TokenSet where
  files :=
    let key := CellKey.ofBrandBreakpoint "core" "large"
    let link : TokenFile := ⟨key, "Link", [number "Link/lineHeight" 20]⟩
    [⟨{}, "_Sizes", [number "Size/lineHeight" 24, number "Size/fontSize" 16]⟩,
      ⟨key, "Button", [number "Button/labelLineHeight" 24, number "Button/labelFontSize" 16]⟩,
      link, link,
      ⟨darkCore, "Ink", [number "Ink/lineHeight" 24, number "Ink/fontSize" 16]⟩]

/-- One line height has a ratio by its name; the two others share one diagnostic.  The primitives
and the file of the color mode stay as they are, although there the names would do as well. -/
theorem attachRatios_accounts_for_buttons :
    ((buttons.attachRatios {}).value.1.filesOf {} = buttons.filesOf {} ∧
      (buttons.attachRatios {}).value.1.filesOf darkCore = buttons.filesOf darkCore) ∧
      (∀ entry ∈ buttons.lineHeights, entry.2.lineHeightRatio = none) ∧
      buttons.lineHeights.length = 3 ∧
      ((buttons.attachRatios {}).value.1.lineHeights.countP fun entry =>
        entry.2.lineHeightRatio.any fun ratio => ratio.source = .namePattern) = 1 ∧
      (Diagnostics.pushAll {}
        (buttons.attachRatios {}).findings).occurrences .missingRatio = 2 := by
  have hbefore : ∀ entry ∈ buttons.lineHeights, entry.2.lineHeightRatio = none := by decide +kernel
  obtain ⟨hafter, ⟨-, -, -, -, -, -, hratios⟩, -, hmissing, -⟩ :=
    TokenSet.attachRatios_accounts buttons {} {}
  refine ⟨⟨?_, ?_⟩, hbefore, by decide +kernel, ?_, ?_⟩
  · rw [hafter]
    decide +kernel
  · rw [hafter]
    decide +kernel
  · rw [← hratios hbefore .namePattern]
    decide +kernel
  · rw [hmissing]
    decide +kernel

end Sample

end DesignTokens
