import DesignTokens.Proofs.Pipeline.Findings
import DesignTokens.Proofs.Pipeline.TokenFiles
import DesignTokens.Proofs.Ratio.Disputes
import DesignTokens.Proofs.Replay

/-!
# Counts and the report on ratios

A run says twice which line heights are left without a ratio and which variables composites disagree
about: in the report on ratios, and in the counts of its summary.  The report has an entry for each
of them, but what is counted are subjects of diagnostics (`Diagnostics.count_pushAll`), and a
subject is a text in which the cell and the variable are put together.

* No variable is in conflict twice in one cell (`TokenSet.nodup_conflicts`), and if variables have
  different paths, no path is unmatched twice in one cell (`IsLaidOut.nodup_unmatched`).
* The parts of a subject can be told apart if brand names have no slash and breakpoint keys have no
  closing bracket (`CellKey.label_inj`).

Under these conditions the counts are the lengths of the lists.  Without them they can be smaller.
-/

namespace DesignTokens

/-! ## Texts that can be told apart -/

/-- A list is cut in one way only at the first occurrence of an item. -/
theorem append_cons_inj_of_not_mem {α : Type} {separator : α} {front back front' back' : List α}
    (hfront : separator ∉ front) (hfront' : separator ∉ front')
    (h : front ++ separator :: back = front' ++ separator :: back') :
    front = front' ∧ back = back' := by
  induction front generalizing front' with
  | nil =>
      cases front' with
      | nil => exact ⟨rfl, (List.cons.inj h).2⟩
      | cons first rest => exact absurd ((List.cons.inj h).1 ▸ List.mem_cons_self) hfront'
  | cons first rest ih =>
      cases front' with
      | nil => exact absurd ((List.cons.inj h).1 ▸ List.mem_cons_self) hfront
      | cons first' rest' =>
          obtain ⟨rfl, hrest⟩ := List.cons.inj h
          obtain ⟨rfl, rfl⟩ := ih (List.not_mem_of_not_mem_cons hfront)
            (List.not_mem_of_not_mem_cons hfront') hrest
          exact ⟨rfl, rfl⟩

/-- Subjects about the cells of brand and breakpoint can be told apart. -/
structure Configuration.Separates (config : Configuration) : Prop where
  brands : ∀ brand ∈ config.brands, '/' ∉ brand.name.toList
  breakpoints : ∀ breakpoint ∈ config.breakpoints, ']' ∉ breakpoint.key.toList

namespace CellKey

/-- A name in a cell, as subjects have it. -/
def label (key : CellKey) (name : String) : String := s!"[{key.text}] {name}"

theorem toList_label_ofBrandBreakpoint (brand breakpoint name : String) :
    ((ofBrandBreakpoint brand breakpoint).label name).toList =
      '[' :: (brand.toList ++ '/' :: (breakpoint.toList ++ ']' :: ' ' :: name.toList)) := by
  have htext : (ofBrandBreakpoint brand breakpoint).label name =
      "[" ++ (brand ++ "/" ++ breakpoint) ++ "] " ++ name := rfl
  rw [htext]
  simp only [String.toList_append, List.append_assoc]
  rfl

theorem label_inj {config : Configuration} (separates : config.Separates) {key key' : CellKey}
    (hkey : key ∈ config.breakpointKeys) (hkey' : key' ∈ config.breakpointKeys)
    {name name' : String} (h : key.label name = key'.label name') : key = key' ∧ name = name' := by
  obtain ⟨brand, hbrand, breakpoint, hbreakpoint, rfl⟩ :=
    Configuration.mem_breakpointKeys_iff.mp hkey
  obtain ⟨brand', hbrand', breakpoint', hbreakpoint', rfl⟩ :=
    Configuration.mem_breakpointKeys_iff.mp hkey'
  have hlist := congrArg String.toList h
  rw [toList_label_ofBrandBreakpoint, toList_label_ofBrandBreakpoint] at hlist
  -- first the slash ends the brand, then the bracket ends the breakpoint
  obtain ⟨hname, hrest⟩ := append_cons_inj_of_not_mem (separates.brands brand hbrand)
    (separates.brands brand' hbrand') (List.cons.inj hlist).2
  obtain ⟨hmode, hrest⟩ := append_cons_inj_of_not_mem
    (separates.breakpoints breakpoint hbreakpoint)
    (separates.breakpoints breakpoint' hbreakpoint') hrest
  rw [String.toList_injective hname, String.toList_injective hmode]
  exact ⟨rfl, String.toList_injective (List.cons.inj hrest).2⟩

/-- Distinct pairs of a cell and a name have distinct labels. -/
theorem nodup_labels {config : Configuration} (separates : config.Separates) {α ν : Type}
    {items : List α} {keyOf : α → CellKey} {nameOf : α → ν} (text : ν → String)
    (injective : Function.Injective text)
    (hkeys : ∀ item ∈ items, keyOf item ∈ config.breakpointKeys)
    (hnodup : (items.map fun item => (keyOf item, nameOf item)).Nodup) :
    (items.map fun item => (keyOf item).label (text (nameOf item))).Nodup := by
  have hlabels : (items.map fun item => (keyOf item).label (text (nameOf item))) =
      (items.map fun item => (keyOf item, nameOf item)).map
        fun pair => pair.1.label (text pair.2) := by
    rw [List.map_map]
    rfl
  rw [hlabels]
  refine hnodup.map_on ?_
  intro pair hpair pair' hpair' heq
  obtain ⟨item, hitem, rfl⟩ := List.mem_map.mp hpair
  obtain ⟨item', hitem', rfl⟩ := List.mem_map.mp hpair'
  obtain ⟨hkey, hname⟩ := label_inj separates (hkeys item hitem) (hkeys item' hitem') heq
  exact Prod.ext hkey (injective hname)

end CellKey

/-! ## Conflicts -/

/-- An index has at most one dispute about a variable. -/
theorem RatioIndex.nodup_disputes (tokens : TokenSet) (key : CellKey) :
    ((ofCell tokens key).disputes.map Dispute.id).Nodup := by
  refine List.nodup_iff_count_le_one.mpr fun id => ?_
  rw [List.count, List.countP_map, List.countP_eq_length_filter]
  simp only [Function.comp_def, filter_disputes_ofCell]
  split
  · exact Nat.le_refl 1
  · exact Nat.zero_le 1

namespace TokenSet

variable {tokens : TokenSet} {options : RatioOptions}

/-- No variable is in conflict twice in one cell. -/
theorem nodup_conflicts (tokens : TokenSet) (options : RatioOptions) :
    ((tokens.attachRatios options).value.2.conflicts.map fun conflict =>
      (conflict.key, conflict.id)).Nodup := by
  rw [value_attachRatios, RatioReport.conflicts_sum, List.flatMap_map]
  refine nodup_map_pair_flatMap id ?_ ?_ ?_
  · rw [List.map_id]
    exact tokens.nodup_ratioCells
  · exact fun key _ conflict => Ratio.key_of_mem_conflicts_reportCell
  · intro key _
    rw [Ratio.conflicts_reportCell, List.map_map]
    exact RatioIndex.nodup_disputes tokens key

end TokenSet

/-! ## Unmatched line heights -/

namespace Pipeline

variable {p : Pipeline} {sized colored : List Cell} {tokens : TokenSet}

/-- The keys of the cells of brand and breakpoint are those that may have ratios. -/
theorem mayHaveRatios_of_mem_breakpointKeys {config : Configuration} {key : CellKey}
    (h : key ∈ config.breakpointKeys) : key.mayHaveRatios := by
  obtain ⟨brand, -, breakpoint, -, rfl⟩ := Configuration.mem_breakpointKeys_iff.mp h
  rfl

private theorem not_mayHaveRatios_of_mem_colorKeys {config : Configuration} {key : CellKey}
    (h : key ∈ config.colorKeys) : ¬ key.mayHaveRatios := by
  obtain ⟨brand, -, colorMode, -, rfl⟩ := Configuration.mem_colorKeys_iff.mp h
  exact Bool.false_ne_true

/-- The files that may have ratios are those of the cells of brand and breakpoint. -/
theorem IsLaidOut.filter_files (laid : p.IsLaidOut sized colored tokens) :
    (tokens.files.filter fun file => file.key.mayHaveRatios) =
      sized.flatMap fun cell => (p.filesIn p.isDimension cell).value := by
  have hprimitives : (p.primitiveFiles.filter fun file => file.key.mayHaveRatios) = [] := by
    rw [List.filter_eq_nil_iff]
    intro file hfile
    rw [(forall_mem_primitiveFiles file hfile).1]
    exact Bool.false_ne_true
  have hsized : ((sized.flatMap fun cell => (p.filesIn p.isDimension cell).value).filter
      fun file => file.key.mayHaveRatios) =
        sized.flatMap fun cell => (p.filesIn p.isDimension cell).value := by
    rw [List.filter_eq_self]
    exact fun file hfile =>
      mayHaveRatios_of_mem_breakpointKeys (laid.sized_lays.key_mem_of_mem_filesIn hfile)
  have hcolored : ((colored.flatMap fun cell => (p.filesIn p.isColor cell).value).filter
      fun file => file.key.mayHaveRatios) = [] := by
    rw [List.filter_eq_nil_iff]
    exact fun file hfile =>
      not_mayHaveRatios_of_mem_colorKeys (laid.colored_lays.key_mem_of_mem_filesIn hfile)
  rw [laid.files_eq, List.filter_append, List.filter_append, hprimitives, hsized, hcolored,
    List.nil_append, List.append_nil]

/-- Ratios are sought in cells of brand and breakpoint of the configuration. -/
theorem IsLaidOut.mem_breakpointKeys (laid : p.IsLaidOut sized colored tokens) {key : CellKey}
    (hkey : key ∈ tokens.ratioCells) : key ∈ p.config.breakpointKeys := by
  obtain ⟨hratios, ⟨composite, hcomposite, rfl⟩ | ⟨file, hfile, rfl⟩⟩ :=
    TokenSet.mem_ratioCells_iff.mp hkey
  · rw [laid.typography_eq] at hcomposite
    obtain ⟨cell, hcell, hmem⟩ := List.mem_flatMap.mp hcomposite
    rw [typographyIn, Logged.value_forList, List.mem_map] at hmem
    obtain ⟨style, -, rfl⟩ := hmem
    exact laid.sized_lays.mem_keys hcell
  · have hmem : file ∈ tokens.files.filter fun file => file.key.mayHaveRatios :=
      List.mem_filter.mpr ⟨hfile, hratios⟩
    rw [laid.filter_files] at hmem
    exact laid.sized_lays.key_mem_of_mem_filesIn hmem

/-- If variables have different paths, a cell has no two line heights of one path. -/
theorem IsLaidOut.nodup_lineHeights (laid : p.IsLaidOut sized colored tokens)
    (valid : p.config.Valid) (hpaths : (p.graph.nodes.map Variable.path).Nodup) :
    (tokens.lineHeights.map fun entry => (entry.1.key, entry.2.path)).Nodup := by
  rw [TokenSet.lineHeights, laid.filter_files, List.flatMap_assoc]
  refine nodup_map_pair_flatMap Cell.key ?_ ?_ ?_
  · rw [laid.sized_lays.keys_eq]
    exact valid.breakpointKeys_nodup
  · intro cell _ entry hentry
    obtain ⟨file, hfile, hmem⟩ := List.mem_flatMap.mp hentry
    obtain ⟨token, -, rfl⟩ := List.mem_map.mp hmem
    exact (forall_mem_filesIn file hfile).1
  · -- within a cell the files only sort the tokens, so each variable has one in them
    intro cell _
    have hsorts : p.Sorts cell _ _ := sorts_filesIn p.isDimension cell
    generalize (p.filesIn p.isDimension cell).value = files at hsorts
    have hall : ((files.flatMap TokenFile.tokens).map Token.path).Nodup := by
      have hselected : ((p.graph.nodes.filter p.isDimension).map Variable.path).Nodup :=
        hpaths.sublist (List.filter_sublist.map _)
      rw [(hsorts.tokens_perm.map Token.path).nodup_iff, List.map_map]
      exact hselected
    refine hall.sublist ?_
    rw [List.map_flatMap, List.map_flatMap]
    refine List.Sublist.flatMap_right files fun file _ => ?_
    rw [List.map_map]
    exact List.filter_sublist.map Token.path

/-- If variables have different paths, no path is unmatched twice in one cell. -/
theorem IsLaidOut.nodup_unmatched (laid : p.IsLaidOut sized colored tokens)
    (valid : p.config.Valid) (hpaths : (p.graph.nodes.map Variable.path).Nodup)
    (options : RatioOptions) :
    ((tokens.attachRatios options).value.2.unmatched.map fun token =>
      (token.key, token.path)).Nodup := by
  have hperm := (RatioReport.unmatched_attachRatios_perm tokens options).map
    fun token => (token.key, token.path)
  have hsub := (List.filter_sublist (p := fun entry => tokens.outcomeOf options entry = .unmatched)
    (l := tokens.lineHeights)).map fun entry => (entry.1.key, entry.2.path)
  rw [hperm.nodup_iff, TokenSet.unmatched, List.map_map]
  exact (laid.nodup_lineHeights valid hpaths).sublist hsub

/-! ## Runs -/

/-- Resolving notes nothing about ratios. -/
theorem Noted.kind_ne {finding : Finding} (noted : p.Noted finding) {source : Export}
    {overrides : List KindOverride} (built : Graph.ofExport source overrides = .ok p.graph) :
    finding.kind ≠ .ratioConflict ∧ finding.kind ≠ .missingRatio := by
  have warranted := noted.warranted built
  generalize finding.kind = kind at warranted ⊢
  generalize finding.subject = subject at warranted
  cases warranted <;> exact ⟨nofun, nofun⟩

/-- What a report lists of a cell is in a cell of brand and breakpoint. -/
theorem IsLaidOut.key_of_mem_report (laid : p.IsLaidOut sized colored tokens)
    {options : RatioOptions} {α : Type} {part : RatioReport → List α} {keyOf : α → CellKey}
    (hsum : ∀ reports, part (.sum reports) = reports.flatMap part)
    (hcell : ∀ key, ∀ item ∈ part (Ratio.reportCell tokens options key).value, keyOf item = key) :
    ∀ item ∈ part (tokens.attachRatios options).value.2, keyOf item ∈ p.config.breakpointKeys := by
  rw [TokenSet.value_attachRatios, hsum, List.flatMap_map]
  intro item hitem
  obtain ⟨key, hkey, hmem⟩ := List.mem_flatMap.mp hitem
  rw [hcell key item hmem]
  exact laid.mem_breakpointKeys hkey

variable {source : Export} {config : Configuration} {options : Options} {output : Output}

/-- A run counts the different subjects of the entries of its report. -/
theorem count_of_run (created : create source config options = .ok p) (ran : p.run = .ok output) :
    output.summary.count .ratioConflict =
        (output.ratios.conflicts.map RatioConflict.subject).eraseDups.length ∧
      output.summary.count .missingRatio =
        (output.ratios.unmatched.map UnmatchedToken.subject).eraseDups.length := by
  obtain ⟨valid, hgraph, rfl, -⟩ := create_eq_ok_iff.mp created
  obtain ⟨built, hbuilt⟩ := p.exists_tokens_eq_ok
  obtain ⟨rfl, -⟩ := (run_eq_ok_iff hbuilt).mp ran
  -- building the tokens notes nothing of these two kinds
  have hother : ∀ finding ∈ built.findings,
      finding.kind ≠ .ratioConflict ∧ finding.kind ≠ .missingRatio := by
    intro finding hfinding
    exact (noted_tokens valid hbuilt finding hfinding).kind_ne hgraph
  have htallies := RatioReport.Tallies.attachRatios built.value p.options.ratios
  have hcount : ∀ kind, (∀ finding ∈ built.findings, finding.kind ≠ kind) →
      (Output.ofTokens p.options.ratios built).value.summary.count kind =
        (((built.value.attachRatios p.options.ratios).findings.filter
          fun finding => finding.kind = kind).map Finding.subject).eraseDups.length := by
    intro kind hkind
    have hnone : (built.findings.filter fun finding => finding.kind = kind) = [] := by
      simpa using hkind
    have hcounted := Diagnostics.count_pushAll
      (built.findings ++ (built.value.attachRatios p.options.ratios).findings) kind
    rw [List.filter_append, hnone, List.nil_append] at hcounted
    exact (Summary.count_of _ _ _ kind).trans hcounted
  constructor
  · rw [hcount _ fun finding hfinding => (hother finding hfinding).1, htallies.conflict_subjects]
    rfl
  · rw [hcount _ fun finding hfinding => (hother finding hfinding).2, htallies.unmatched_subjects]
    rfl

/-- **The counts of a run and its report on ratios.**  Whatever the export, the configuration and
the options, a run counts the different subjects of the conflicts and of the unmatched line heights
that its report lists.  The report lists no variable twice in one cell as one that composites
disagree about.  If no brand has a slash in its name and no breakpoint a closing bracket in its key,
there are as many conflicts as are counted, and if moreover variables have different paths, there
are as many unmatched line heights as are counted. -/
theorem counts_of_report (created : create source config options = .ok p)
    (ran : p.run = .ok output) :
    output.summary.count .ratioConflict =
        (output.ratios.conflicts.map RatioConflict.subject).eraseDups.length ∧
      output.summary.count .missingRatio =
        (output.ratios.unmatched.map UnmatchedToken.subject).eraseDups.length ∧
      (output.ratios.conflicts.map fun conflict => (conflict.key, conflict.id)).Nodup ∧
      (config.Separates →
        output.summary.count .ratioConflict = output.ratios.conflicts.length ∧
        ((source.nodes.map Variable.path).Nodup →
          output.summary.count .missingRatio = output.ratios.unmatched.length)) := by
  obtain ⟨hconflicts, hunmatched⟩ := count_of_run created ran
  obtain ⟨valid, hgraph, rfl, -⟩ := create_eq_ok_iff.mp created
  obtain ⟨built, hbuilt⟩ := p.exists_tokens_eq_ok
  obtain ⟨sized, colored, laid⟩ := isLaidOut_of_tokens hbuilt
  have hreport : output.ratios = (built.value.attachRatios p.options.ratios).value.2 := by
    obtain ⟨rfl, -⟩ := (run_eq_ok_iff hbuilt).mp ran
    rfl
  have hdistinct := built.value.nodup_conflicts p.options.ratios
  rw [← hreport] at hdistinct
  refine ⟨hconflicts, hunmatched, hdistinct, fun separates => ⟨?_, fun hpaths => ?_⟩⟩
  · -- the cell and the variable tell conflicts apart, and both are in the subject
    have hkeys : ∀ conflict ∈ output.ratios.conflicts,
        conflict.key ∈ p.config.breakpointKeys := by
      rw [hreport]
      exact laid.key_of_mem_report RatioReport.conflicts_sum
        fun _ _ => Ratio.key_of_mem_conflicts_reportCell
    have htext : Function.Injective VariableId.text := by
      rintro ⟨text⟩ ⟨text'⟩ rfl
      rfl
    have hsubjects : (output.ratios.conflicts.map RatioConflict.subject).Nodup :=
      CellKey.nodup_labels separates VariableId.text htext hkeys hdistinct
    rw [hconflicts, eraseDups_of_nodup hsubjects, List.length_map]
  · -- of a line height the subject has the path, which has to be unique for this
    have hkeys : ∀ token ∈ output.ratios.unmatched, token.key ∈ p.config.breakpointKeys := by
      rw [hreport]
      exact laid.key_of_mem_report RatioReport.unmatched_sum
        fun _ _ => Ratio.key_of_mem_unmatched_reportCell
    have hnodup : (output.ratios.unmatched.map fun token => (token.key, token.path)).Nodup := by
      rw [← Graph.nodes_of_ofExport hgraph] at hpaths
      rw [hreport]
      exact laid.nodup_unmatched valid hpaths _
    have hsubjects : (output.ratios.unmatched.map UnmatchedToken.subject).Nodup :=
      CellKey.nodup_labels separates id Function.injective_id hkeys hnodup
    rw [hunmatched, eraseDups_of_nodup hsubjects, List.length_map]

end Pipeline

/-! ## Two styles at odds and two captions -/

namespace Sample

def captionLineHeight : Variable :=
  ⟨⟨"caption"⟩, "Text/lineHeight", breakpoints.id, .float,
    Table.empty.insert ⟨"sm"⟩ (.literal (.number 30))⟩

/-- A line height of the same path in another collection. -/
def widgetLineHeight : Variable :=
  ⟨⟨"widgetCaption"⟩, "Text/lineHeight", widgets.id, .float,
    Table.empty.insert ⟨"one"⟩ (.literal (.number 40))⟩

/-- Two styles do not agree about the leading, and no style is bound to the other variables. -/
def captionSource (captions : List Variable) : Export where
  collections := [sizes, breakpoints, widgets].map fun c => ⟨c.id, c.name, c.modes⟩
  nodes := leading :: captions
  textStyles := [bodyStyle, leadStyle]

def captioned (config : Configuration) (captions : List Variable) : Pipeline where
  graph :=
    { collectionIndex := .ofList [sizes, breakpoints, widgets]
      nodeIndex := .ofList (leading :: captions)
      textStyles := [bodyStyle, leadStyle]
      effectStyles := [] }
  config
  options := {}

theorem create_captioned (config : Configuration) (captions : List Variable)
    (valid : config.Valid) (hgraph : Graph.ofExport (captionSource captions) config.collections =
      .ok (captioned config captions).graph) :
    Pipeline.create (captionSource captions) config {} = .ok (captioned config captions) :=
  Pipeline.create_eq_ok_iff.mpr ⟨valid, hgraph, rfl, rfl⟩

def captionSet : Pipeline := captioned typesetting.config [captionLineHeight]

def captionOutput : Output := captionSet.run.toOption.getD {}

theorem counts_of_captionSet :
    captionSet.run = .ok captionOutput ∧ typesetting.config.Separates ∧
      ((captionSource [captionLineHeight]).nodes.map Variable.path).Nodup ∧
      captionOutput.summary.count .ratioConflict = 1 ∧
      captionOutput.summary.count .missingRatio = 1 := by
  have hcreated := create_captioned typesetting.config [captionLineHeight]
    (Configuration.validate_eq_ok_iff.mp (by decide +kernel)) (by decide +kernel)
  have hran : captionSet.run = .ok captionOutput := Except.eq_ok_of_isOk (by decide +kernel)
  have hseparates : typesetting.config.Separates := ⟨by decide +kernel, by decide +kernel⟩
  have hpaths : ((captionSource [captionLineHeight]).nodes.map Variable.path).Nodup := by
    decide +kernel
  obtain ⟨-, -, -, hcounts⟩ := Pipeline.counts_of_report hcreated hran
  obtain ⟨hconflicts, hunmatched⟩ := hcounts hseparates
  refine ⟨hran, hseparates, hpaths, ?_, ?_⟩
  · rw [hconflicts]
    decide +kernel
  · rw [hunmatched hpaths]
    decide +kernel

/-- The first cell and the last one have the same text. -/
def slashed : Configuration where
  brands := [{ name := "a" }, { name := "a/b" }]
  breakpoints := [⟨"b/c", ⟨"sm"⟩⟩, ⟨"c", ⟨"lg"⟩⟩]

def slashedSet : Pipeline := captioned slashed [captionLineHeight, widgetLineHeight]

def slashedOutput : Output := slashedSet.run.toOption.getD {}

/-- In four cells there are four conflicts and eight line heights without a ratio.  Two cells have
one text and two variables have one path, so three and three are counted. -/
theorem counts_of_slashedSet :
    Pipeline.create (captionSource [captionLineHeight, widgetLineHeight]) slashed {} =
        .ok slashedSet ∧
      slashedSet.run = .ok slashedOutput ∧
      slashedOutput.ratios.conflicts.length = 4 ∧
      slashedOutput.summary.count .ratioConflict = 3 ∧
      slashedOutput.ratios.unmatched.length = 8 ∧
      slashedOutput.summary.count .missingRatio = 3 := by
  have hcreated := create_captioned slashed [captionLineHeight, widgetLineHeight]
    (Configuration.validate_eq_ok_iff.mp (by decide +kernel)) (by decide +kernel)
  have hran : slashedSet.run = .ok slashedOutput := Except.eq_ok_of_isOk (by decide +kernel)
  have hcounts : (slashedOutput.ratios.conflicts.length, slashedOutput.summary.count .ratioConflict,
      slashedOutput.ratios.unmatched.length, slashedOutput.summary.count .missingRatio) =
        (4, 3, 8, 3) := by decide +kernel
  simp only [Prod.mk.injEq] at hcounts
  exact ⟨hcreated, hran, hcounts⟩

end Sample

end DesignTokens
