import DesignTokens.Proofs.Graph.Comparison
import DesignTokens.Proofs.Ratio.Disputes
import DesignTokens.Proofs.Ratio.Order

/-!
# Ratios do not depend on the order of the text styles

A pipeline reads the text styles of its graph at one place only, where it makes the typography of a
cell.  No variable comes to anything else in a graph with other styles, because both graphs find the
same (`Graph.Alike`).  So the same styles in another order make the same files, and the same
composites in another order (`IsLaidOut.reordered`).
-/

namespace DesignTokens

namespace Pipeline

variable {p : Pipeline} {styles : List TextStyle}

/-- A pipeline with other text styles. -/
def withTextStyles (p : Pipeline) (styles : List TextStyle) : Pipeline :=
  { p with graph := { p.graph with textStyles := styles } }

theorem alike_withTextStyles (p : Pipeline) (styles : List TextStyle) :
    (p.withTextStyles styles).graph.Alike p.graph :=
  ⟨fun _ => rfl, fun _ => rfl⟩

/-! ## What does not depend on the styles -/

theorem token_withTextStyles (p : Pipeline) (styles : List TextStyle) (context : Context) :
    (p.withTextStyles styles).token context = p.token context := by
  have alike := p.alike_withTextStyles styles
  funext v
  rw [token, alike.resolve_eq, alike.endpoint_eq, token]
  rfl

private theorem bind_withTextStyles (p : Pipeline) (styles : List TextStyle) :
    (p.withTextStyles styles).bind = p.bind := by
  have alike := p.alike_withTextStyles styles
  funext context flags id
  rw [Pipeline.bind, alike.value_eq, alike.endpointOfReference_eq, alike.pathOf_eq, Pipeline.bind]
  rfl

private theorem typographyOf_withTextStyles (p : Pipeline) (styles : List TextStyle)
    (context : Context) (style : TextStyle) :
    (p.withTextStyles styles).typographyOf context style = p.typographyOf context style := by
  unfold typographyOf bindNumber bindText bindWeight
  rw [bind_withTextStyles]
  rfl

private theorem filesIn_withTextStyles (p : Pipeline) (styles : List TextStyle)
    (select : Variable → Bool) (cell : Cell) :
    (p.withTextStyles styles).filesIn select cell = p.filesIn select cell := by
  simp only [filesIn, addCell, token_withTextStyles]
  rfl

private theorem primitiveFiles_withTextStyles (p : Pipeline) (styles : List TextStyle) :
    (p.withTextStyles styles).primitiveFiles = p.primitiveFiles := by
  simp only [primitiveFiles, primitiveFile, token_withTextStyles]
  rfl

/-! ## What depends on the styles -/

private theorem typographyIn_withTextStyles_perm (hperm : p.graph.textStyles.Perm styles)
    (cell : Cell) :
    (p.typographyIn cell).value.Perm ((p.withTextStyles styles).typographyIn cell).value := by
  simp only [typographyIn, Logged.value_forList, typographyOf_withTextStyles]
  exact hperm.map _

/-- The same styles in another order make the same tokens, with the composites in another order. -/
theorem IsLaidOut.reordered {sized colored sized' colored' : List Cell} {tokens others : TokenSet}
    (laid : p.IsLaidOut sized colored tokens)
    (laid' : (p.withTextStyles styles).IsLaidOut sized' colored' others)
    (hperm : p.graph.textStyles.Perm styles) : tokens.Reordered others := by
  -- the cells go by the configuration, which is the same
  obtain rfl : sized = sized' :=
    laid.sized_lays.unique ⟨laid'.sized_lays.keys_eq, laid'.sized_lays.context_eq⟩
  obtain rfl : colored = colored' :=
    laid.colored_lays.unique ⟨laid'.colored_lays.keys_eq, laid'.colored_lays.context_eq⟩
  constructor
  · rw [laid.files_eq, laid'.files_eq, primitiveFiles_withTextStyles]
    simp only [filesIn_withTextStyles]
    rfl
  · rw [laid.typography_eq, laid'.typography_eq]
    exact List.Perm.flatMap_left sized fun cell _ => typographyIn_withTextStyles_perm hperm cell

/-! ## Runs -/

theorem create_withTextStyles {source : Export} {config : Configuration} {options : Options}
    (created : create source config options = .ok p) (styles : List TextStyle) :
    create { source with textStyles := styles } config options =
      .ok (p.withTextStyles styles) := by
  obtain ⟨valid, hgraph, rfl, rfl⟩ := create_eq_ok_iff.mp created
  exact create_eq_ok_iff.mpr ⟨valid, Graph.ofExport_withTextStyles hgraph styles, rfl, rfl⟩

/-- **The order of the text styles does not matter.**  If two exports differ in the order of their
text styles only, and both runs succeed, then they make the same files, token for token, with
numerically the same ratios by the same reasoning; the same variables are in conflict in the same
cells; and the reports list the same line heights without a ratio and have the same counts. -/
theorem run_of_perm_textStyles {source : Export} {config : Configuration} {options : Options}
    {p' : Pipeline} {output output' : Output} (hperm : source.textStyles.Perm styles)
    (created : create source config options = .ok p)
    (created' : create { source with textStyles := styles } config options = .ok p')
    (ran : p.run = .ok output) (ran' : p'.run = .ok output') :
    List.Forall₂ TokenFile.Same output.tokens.files output'.tokens.files ∧
      (∀ key id,
        (∃ conflict ∈ output.ratios.conflicts, conflict.key = key ∧ conflict.id = id) ↔
          ∃ conflict ∈ output'.ratios.conflicts, conflict.key = key ∧ conflict.id = id) ∧
      output.ratios.withoutConflicts = output'.ratios.withoutConflicts := by
  obtain rfl := Except.ok_unique (create_withTextStyles created styles) created'
  obtain ⟨-, hgraph, rfl, -⟩ := create_eq_ok_iff.mp created
  obtain ⟨-, -, hstyles, -⟩ := Graph.ofExport_eq_ok hgraph
  obtain ⟨sized, colored, tokens, laid, htokens, hreport⟩ := exists_isLaidOut ran
  obtain ⟨sized', colored', others, laid', htokens', hreport'⟩ := exists_isLaidOut ran'
  -- cells and files are the same, only the composites within a cell change places
  have reordered := laid.reordered laid' (hstyles ▸ hperm)
  rw [htokens, htokens', hreport, hreport']
  refine ⟨reordered.same_files _, ?_, ?_⟩
  · intro key id
    rw [TokenSet.exists_conflict_iff, TokenSet.exists_conflict_iff, reordered.ratioCells_eq,
      reordered.exists_dispute_iff]
  · rw [RatioReport.withoutConflicts_sum, RatioReport.withoutConflicts_sum, List.map_map,
      List.map_map, reordered.ratioCells_eq]
    congr 1
    refine List.map_congr_left fun key _ => ?_
    exact reordered.withoutConflicts_reportCell_eq _ key

end Pipeline

/-! ## Two styles that disagree -/

namespace Sample

def quarrelSource : Export where
  collections := [sizes, breakpoints].map fun c => ⟨c.id, c.name, c.modes⟩
  nodes := quarrel.graph.nodes
  textStyles := [bodyStyle, leadStyle]

def reversedQuarrel : Pipeline := quarrel.withTextStyles [leadStyle, bodyStyle]

def reversed : Output := reversedQuarrel.run.toOption.getD {}

private theorem run_reversedQuarrel : reversedQuarrel.run = .ok reversed :=
  Except.eq_ok_of_isOk (by decide)

/-- The ratios of the conflict change places, and that is all. -/
theorem run_of_reversed_quarrel :
    Pipeline.create quarrelSource quarrel.config {} = .ok quarrel ∧
      quarrelled.ratios.conflicts.map RatioConflict.ratios = [[3 / 2, 6 / 5]] ∧
      reversed.ratios.conflicts.map RatioConflict.ratios = [[6 / 5, 3 / 2]] ∧
      List.Forall₂ TokenFile.Same quarrelled.tokens.files reversed.tokens.files ∧
      quarrelled.ratios.withoutConflicts = reversed.ratios.withoutConflicts := by
  have hcreated : Pipeline.create quarrelSource quarrel.config {} = .ok quarrel :=
    Pipeline.create_eq_ok_iff.mpr
      ⟨Configuration.validate_eq_ok_iff.mp (by decide +kernel), by decide +kernel, rfl, rfl⟩
  have hperm : quarrelSource.textStyles.Perm [leadStyle, bodyStyle] := .swap leadStyle bodyStyle []
  obtain ⟨hfiles, -, hreport⟩ := Pipeline.run_of_perm_textStyles hperm hcreated
    (Pipeline.create_withTextStyles hcreated _) run_quarrel run_reversedQuarrel
  exact ⟨hcreated, by decide +kernel, by decide +kernel, hfiles, hreport⟩

end Sample

end DesignTokens
