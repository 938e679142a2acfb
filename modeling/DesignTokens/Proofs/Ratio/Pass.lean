import DesignTokens.Ratio.Attachment
import DesignTokens.Proofs.Table

/-!
# The pass over the cells

The pass that attaches ratios goes from cell to cell, changes tokens in their places and adds to one
report.  What it does can be told apart (`TokenSet.attachRatios_eq`): the report is put together
from reports on the cells, and each file becomes what it would become if its cell were the only one.

## Strategy

A step of the pass has a result which the report so far has no part in, and it only adds to that
report (`Ratio.Pass.Adds`).  So steps can be put together one after the other, and `reportFile` and
`reportCell` are what the steps for a file and for a cell add.

A cell changes its own files, and not the composites, on which the index of a cell depends.  When
the pass comes to a cell, its files are those that were there at first, because no cell is met twice
(`Ratio.adds_foldlM_passCell`).
-/

namespace DesignTokens

/-- What is left out gives nothing. -/
private theorem flatMap_filter {α β : Type} (items : List α) (test : α → Bool) (f : α → List β) :
    (items.filter test).flatMap f = items.flatMap fun item => if test item then f item else [] := by
  induction items with
  | nil => rfl
  | cons item rest ih =>
      rw [List.flatMap_cons, ← ih]
      by_cases h : test item
      · rw [if_pos h, List.filter_cons_of_pos h, List.flatMap_cons]
      · rw [if_neg h, List.filter_cons_of_neg h, List.nil_append]

namespace RatioReport

theorem append_assoc (first second third : RatioReport) :
    first ++ second ++ third = first ++ (second ++ third) :=
  RatioReport.ext (Nat.add_assoc _ _ _) (Nat.add_assoc _ _ _) (Nat.add_assoc _ _ _)
    (Nat.add_assoc _ _ _) (List.append_assoc _ _ _) (List.append_assoc _ _ _)

theorem append_empty (report : RatioReport) : report ++ {} = report :=
  RatioReport.ext rfl rfl rfl rfl (List.append_nil _) (List.append_nil _)

theorem empty_append (report : RatioReport) : ({} : RatioReport) ++ report = report :=
  RatioReport.ext (Nat.zero_add _) (Nat.zero_add _) (Nat.zero_add _) (Nat.zero_add _) rfl rfl

/-- Reports are added up from any start. -/
theorem foldl_append_eq (start : RatioReport) (reports : List RatioReport) :
    reports.foldl append start = start ++ sum reports := by
  induction reports generalizing start with
  | nil => exact (append_empty start).symm
  | cons report rest ih =>
      have hstart : append start report = start ++ report := rfl
      have hfirst : append {} report = report := empty_append report
      rw [sum, List.foldl_cons, List.foldl_cons, ih, ih (append {} report), hfirst, hstart,
        append_assoc]

theorem sum_append (reports others : List RatioReport) :
    sum (reports ++ others) = sum reports ++ sum others := by
  rw [sum, List.foldl_append, foldl_append_eq]
  rfl

theorem sum_cons (report : RatioReport) (reports : List RatioReport) :
    sum (report :: reports) = report ++ sum reports := by
  have hsingle : sum [report] = report := empty_append report
  rw [← List.singleton_append, sum_append, hsingle]

/-- Empty reports add nothing. -/
theorem sum_map_filter {α : Type} (items : List α) (test : α → Bool) (f : α → RatioReport) :
    sum (items.map fun item => if test item then f item else {}) =
      sum ((items.filter test).map f) := by
  induction items with
  | nil => rfl
  | cons item rest ih =>
      rw [List.map_cons, sum_cons, ih]
      by_cases h : test item
      · rw [if_pos h, List.filter_cons_of_pos h, List.map_cons, sum_cons]
      · rw [if_neg h, List.filter_cons_of_neg h, empty_append]

end RatioReport

namespace Ratio

variable {α β : Type} {tokens : TokenSet} {options : RatioOptions} {index : RatioIndex}
  {file : TokenFile} {key : CellKey}

/-! ## Steps that add to a report -/

/-- A step has a result that does not depend on the report so far, adds to the report, and notes
findings. -/
def Pass.Adds (step : Pass α) (result : α) (added : RatioReport) (noted : List Finding) : Prop :=
  ∀ report, step.run report = ⟨(result, report ++ added), noted⟩

namespace Pass.Adds

theorem pure (result : α) : (Pure.pure result : Pass α).Adds result {} [] := by
  intro report
  rw [StateT.run_pure, RatioReport.append_empty]
  rfl

theorem add (added : Logged RatioReport) :
    (Pass.add added).Adds () added.value added.findings := by
  intro report
  refine Logged.ext rfl ?_
  show (added.findings ++ []) ++ [] = added.findings
  rw [List.append_nil, List.append_nil]

theorem bind {step : Pass α} {next : α → Pass β} {result : α} {last : β}
    {added more : RatioReport} {noted others : List Finding} (first : step.Adds result added noted)
    (second : (next result).Adds last more others) :
    (step >>= next).Adds last (added ++ more) (noted ++ others) := by
  intro report
  rw [StateT.run_bind, first report]
  ext1
  · rw [Logged.value_bind, second, RatioReport.append_assoc]
  · rw [Logged.findings_bind, second]

theorem map {step : Pass α} {result : α} {added : RatioReport} {noted : List Finding}
    (adds : step.Adds result added noted) (f : α → β) :
    (f <$> step).Adds (f result) added noted := by
  intro report
  rw [StateT.run_map, adds report]
  exact Logged.ext rfl (List.append_nil _)

/-- What is added item by item is added up. -/
theorem mapM {items : List α} {step : α → Pass β} {change : α → β} {added : α → RatioReport}
    {noted : α → List Finding}
    (each : ∀ item ∈ items, (step item).Adds (change item) (added item) (noted item)) :
    (items.mapM step).Adds (items.map change) (.sum (items.map added)) (items.flatMap noted) := by
  induction items with
  | nil => exact pure []
  | cons item rest ih =>
      obtain ⟨hitem, hrest⟩ := List.forall_mem_cons.mp each
      rw [List.map_cons, List.map_cons, List.flatMap_cons, RatioReport.sum_cons]
      simp only [List.mapM_cons, bind_pure_comp]
      exact hitem.bind ((ih hrest).map (change item :: ·))

theorem forM {items : List α} {step : α → Pass Unit} {added : α → RatioReport}
    {noted : α → List Finding}
    (each : ∀ item ∈ items, (step item).Adds () (added item) (noted item)) :
    (items.forM step).Adds () (.sum (items.map added)) (items.flatMap noted) := by
  induction items with
  | nil => exact pure ()
  | cons item rest ih =>
      obtain ⟨hitem, hrest⟩ := List.forall_mem_cons.mp each
      rw [List.map_cons, List.flatMap_cons, RatioReport.sum_cons]
      exact hitem.bind (ih hrest)

end Pass.Adds

/-! ## Tokens, files and cells -/

/-- A file with the ratios of its line heights. -/
def attachTo (index : RatioIndex) (options : RatioOptions) (file : TokenFile) : TokenFile :=
  { file with
    tokens := file.tokens.map fun token => apply token (outcome index options file token) }

/-- The report on the tokens of a file. -/
def reportFile (index : RatioIndex) (options : RatioOptions) (file : TokenFile) :
    Logged RatioReport :=
  RatioReport.sum <$> Logged.forList file.tokens fun token =>
    reportToken file token (outcome index options file token)

theorem value_reportFile (index : RatioIndex) (options : RatioOptions) (file : TokenFile) :
    (reportFile index options file).value = .sum (file.tokens.map fun token =>
      (reportToken file token (outcome index options file token)).value) := by
  rw [← Logged.value_forList]
  rfl

theorem findings_reportFile (index : RatioIndex) (options : RatioOptions) (file : TokenFile) :
    (reportFile index options file).findings = file.tokens.flatMap fun token =>
      (reportToken file token (outcome index options file token)).findings := by
  simp [reportFile]

private theorem adds_passToken (index : RatioIndex) (options : RatioOptions) (file : TokenFile)
    (token : Token) :
    (passToken index options file token).Adds (apply token (outcome index options file token))
      (reportToken file token (outcome index options file token)).value
      (reportToken file token (outcome index options file token)).findings := by
  have hadd := Pass.Adds.add (reportToken file token (outcome index options file token))
  exact hadd.map fun _ => apply token (outcome index options file token)

private theorem adds_passFile (index : RatioIndex) (options : RatioOptions) (file : TokenFile) :
    (passFile index options file).Adds (attachTo index options file)
      (reportFile index options file).value (reportFile index options file).findings := by
  rw [value_reportFile, findings_reportFile]
  have htokens := Pass.Adds.mapM fun token (_ : token ∈ file.tokens) =>
    adds_passToken index options file token
  exact htokens.map fun tokens => { file with tokens }

/-- A file of another cell stays as it is, and nothing is reported on it. -/
theorem adds_passFile_if (index : RatioIndex) (options : RatioOptions) (key : CellKey)
    (file : TokenFile) :
    (if file.key == key then passFile index options file else pure file : Pass TokenFile).Adds
      (if file.key == key then attachTo index options file else file)
      (if file.key == key then (reportFile index options file).value else {})
      (if file.key == key then (reportFile index options file).findings else []) := by
  split
  · exact adds_passFile index options file
  · exact .pure file

/-- The files of a cell with the ratios of their line heights, and the others as they are. -/
def attachCell (options : RatioOptions) (tokens : TokenSet) (key : CellKey) : TokenSet :=
  { tokens with
    files := tokens.files.map fun file =>
      if file.key == key then attachTo (.ofCell tokens key) options file else file }

/-- What the pass reports on a cell. -/
def reportCell (tokens : TokenSet) (options : RatioOptions) (key : CellKey) :
    Logged RatioReport :=
  Prod.snd <$> (passCell options tokens key).run {}

/-- Disputes come first, and then what becomes of the tokens of the cell. -/
theorem adds_passCell (options : RatioOptions) (tokens : TokenSet) (key : CellKey) :
    (passCell options tokens key).Adds (attachCell options tokens key)
      (.sum ((RatioIndex.ofCell tokens key).disputes.map (fun dispute =>
          (reportDispute key dispute).value) ++
        (tokens.filesOf key).map fun file =>
          (reportFile (RatioIndex.ofCell tokens key) options file).value))
      ((RatioIndex.ofCell tokens key).disputes.flatMap (fun dispute =>
          (reportDispute key dispute).findings) ++
        (tokens.filesOf key).flatMap fun file =>
          (reportFile (RatioIndex.ofCell tokens key) options file).findings) := by
  let index := RatioIndex.ofCell tokens key
  have hdisputes := Pass.Adds.forM fun dispute (_ : dispute ∈ index.disputes) =>
    Pass.Adds.add (reportDispute key dispute)
  have hfiles := Pass.Adds.mapM fun file (_ : file ∈ tokens.files) =>
    adds_passFile_if index options key file
  -- the pass goes over all files and skips those of other cells
  have hfindings : (tokens.files.flatMap fun file =>
      if file.key == key then (reportFile index options file).findings else []) =
        (tokens.filesOf key).flatMap fun file => (reportFile index options file).findings := by
    rw [TokenSet.filesOf, flatMap_filter]
  rw [RatioReport.sum_append]
  rw [hfindings, RatioReport.sum_map_filter] at hfiles
  exact hdisputes.bind (hfiles.map fun files => ({ tokens with files } : TokenSet))

theorem value_reportCell (tokens : TokenSet) (options : RatioOptions) (key : CellKey) :
    (reportCell tokens options key).value =
      .sum ((RatioIndex.ofCell tokens key).disputes.map (fun dispute =>
          (reportDispute key dispute).value) ++
        (tokens.filesOf key).map fun file =>
          (reportFile (RatioIndex.ofCell tokens key) options file).value) := by
  rw [reportCell, Logged.value_map, adds_passCell options tokens key {}]
  exact RatioReport.empty_append _

theorem findings_reportCell (tokens : TokenSet) (options : RatioOptions) (key : CellKey) :
    (reportCell tokens options key).findings =
      (RatioIndex.ofCell tokens key).disputes.flatMap (fun dispute =>
          (reportDispute key dispute).findings) ++
        (tokens.filesOf key).flatMap fun file =>
          (reportFile (RatioIndex.ofCell tokens key) options file).findings := by
  rw [reportCell, Logged.findings_map, adds_passCell options tokens key {}]

/-! ## All cells -/

/-- The pass changes no composite, and so it changes no index. -/
theorem ofCell_attachCell (key other : CellKey) :
    RatioIndex.ofCell (attachCell options tokens key) other = RatioIndex.ofCell tokens other :=
  rfl

theorem filesOf_attachCell_of_ne {other : CellKey} (hne : other ≠ key) :
    (attachCell options tokens key).filesOf other = tokens.filesOf other := by
  have hkey : ∀ file : TokenFile, (if file.key == key then
      attachTo (.ofCell tokens key) options file else file).key = file.key := by
    intro file
    split
    · rfl
    · rfl
  simp only [TokenSet.filesOf, attachCell, List.filter_map, Function.comp_def, hkey]
  refine (List.map_congr_left fun file hfile => ?_).trans (List.map_id _)
  have hother : file.key = other := beq_iff_eq.mp (List.mem_filter.mp hfile).2
  rw [if_neg (by simp [hother, hne])]
  rfl

/-- A cell is reported on in the same way after another one. -/
theorem reportCell_attachCell_of_ne {other : CellKey} (hne : other ≠ key) :
    reportCell (attachCell options tokens key) options other = reportCell tokens options other := by
  ext1
  · rw [value_reportCell, value_reportCell, ofCell_attachCell, filesOf_attachCell_of_ne hne]
  · rw [findings_reportCell, findings_reportCell, ofCell_attachCell, filesOf_attachCell_of_ne hne]

private theorem adds_reportCell (options : RatioOptions) (tokens : TokenSet) (key : CellKey) :
    (passCell options tokens key).Adds (attachCell options tokens key)
      (reportCell tokens options key).value (reportCell tokens options key).findings := by
  rw [value_reportCell, findings_reportCell]
  exact adds_passCell options tokens key

/-- The files of some cells with the ratios of their line heights, and the others as they are. -/
def attachCells (options : RatioOptions) (tokens : TokenSet) (keys : List CellKey) : TokenSet :=
  { tokens with
    files := tokens.files.map fun file =>
      if file.key ∈ keys then attachTo (.ofCell tokens file.key) options file else file }

private theorem attachCells_nil (options : RatioOptions) (tokens : TokenSet) :
    attachCells options tokens [] = tokens := by
  simp [attachCells]

private theorem attachCells_cons (options : RatioOptions) (tokens : TokenSet) {keys : List CellKey}
    (hfresh : key ∉ keys) :
    attachCells options tokens (key :: keys) =
      attachCells options (attachCell options tokens key) keys := by
  have hfile (file : TokenFile) :
      (if file.key ∈ key :: keys then attachTo (.ofCell tokens file.key) options file else file) =
        let first := if file.key == key then attachTo (.ofCell tokens key) options file else file
        if first.key ∈ keys then attachTo (.ofCell tokens first.key) options first else first := by
    by_cases hkey : file.key = key
    · simp [hkey, attachTo, hfresh]
    · simp [hkey]
  simp only [attachCells, attachCell, List.map_map, Function.comp_def, hfile]
  rfl

/-- Cells that are met once each are gone through as if each were the first one. -/
theorem adds_foldlM_passCell (options : RatioOptions) {keys : List CellKey} (hnodup : keys.Nodup)
    (tokens : TokenSet) :
    (keys.foldlM (passCell options) tokens).Adds (attachCells options tokens keys)
      (.sum (keys.map fun key => (reportCell tokens options key).value))
      (keys.flatMap fun key => (reportCell tokens options key).findings) := by
  induction keys generalizing tokens with
  | nil =>
      rw [attachCells_nil]
      exact .pure tokens
  | cons key rest ih =>
      obtain ⟨hfresh, hrest⟩ := List.nodup_cons.mp hnodup
      have hne : ∀ other ∈ rest, other ≠ key := by
        rintro other hother rfl
        exact hfresh hother
      -- after the first cell the files and the reports of the others are as they were
      have hreport : ∀ other ∈ rest, reportCell (attachCell options tokens key) options other =
          reportCell tokens options other := fun other hother =>
        reportCell_attachCell_of_ne (hne other hother)
      have hrest := ih hrest (attachCell options tokens key)
      rw [List.map_congr_left fun other hother => congrArg Logged.value (hreport other hother),
        List.flatMap_congr fun other hother => congrArg Logged.findings (hreport other hother),
        ← attachCells_cons options tokens hfresh] at hrest
      rw [List.map_cons, List.flatMap_cons, RatioReport.sum_cons]
      exact (adds_reportCell options tokens key).bind hrest

end Ratio

namespace TokenSet

open Ratio

/-- What becomes of a file. -/
def attached (tokens : TokenSet) (options : RatioOptions) (file : TokenFile) : TokenFile :=
  if file.key.mayHaveRatios then attachTo (.ofCell tokens file.key) options file else file

theorem nodup_ratioCells (tokens : TokenSet) : tokens.ratioCells.Nodup := Table.nodup_keys _

theorem mem_ratioCells_iff {tokens : TokenSet} {key : CellKey} :
    key ∈ tokens.ratioCells ↔ key.mayHaveRatios ∧
      ((∃ composite ∈ tokens.typography, composite.key = key) ∨
        ∃ file ∈ tokens.files, file.key = key) := by
  rw [ratioCells, Table.mem_keys_ofList_iff]
  simp [and_comm, and_or_left]

/-- Each file becomes what it would become by itself, and the report is put together from those on
the cells. -/
theorem attachRatios_eq (tokens : TokenSet) (options : RatioOptions) :
    tokens.attachRatios options =
      ⟨({ tokens with files := tokens.files.map (tokens.attached options) },
          .sum (tokens.ratioCells.map fun key => (reportCell tokens options key).value)),
        tokens.ratioCells.flatMap fun key => (reportCell tokens options key).findings⟩ := by
  have hfiles : attachCells options tokens tokens.ratioCells =
      { tokens with files := tokens.files.map (tokens.attached options) } := by
    refine congrArg (fun files => ({ tokens with files } : TokenSet)) ?_
    refine List.map_congr_left fun file hfile => ?_
    -- each file that may have ratios is of a cell that the pass goes through
    have hcell : file.key ∈ tokens.ratioCells ↔ file.key.mayHaveRatios := by
      rw [mem_ratioCells_iff, and_iff_left (.inr ⟨file, hfile, rfl⟩)]
    rw [attached]
    simp only [hcell]
  rw [attachRatios, adds_foldlM_passCell options tokens.nodup_ratioCells tokens {}, hfiles,
    RatioReport.empty_append]

end TokenSet

end DesignTokens
