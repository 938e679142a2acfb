import DesignTokens.Proofs.Graph.Grounded
import DesignTokens.Proofs.Pipeline.DeclaredCells
import DesignTokens.Proofs.Ratio.Accounting

/-!
# Diagnostics raise no false alarm

A run asks the graph about its own variables and about the ids that styles are bound to (`Asks`),
in the open context and in those of its cells (`Visits`).  Whatever the builders do with the
answers, all that they note is, up to the detail, what resolving one of these ids in one of these
contexts notes (`Noted`, `noted_tokens`): a walk that looks for an endpoint notes no more than that.

So it is enough to look at the ends of walks.  Each finding there says something about the graph,
and `Warranted` spells it out; the walk that noted it is the proof (`Noted.warranted`).  A circle is
found at the variable that is entered twice, which need not be the one that was asked for.
-/

namespace DesignTokens

/-! ## What findings say -/

/-- An id stands somewhere in an export: as what a variable is an alias of, or bound to a style. -/
def Export.Names (source : Export) (id : VariableId) : Prop :=
  (∃ other, source.Aliases other id) ∨
    (∃ style ∈ source.textStyles, id ∈ style.bindings.ids) ∨
      ∃ style ∈ source.effectStyles, ∃ effect ∈ style.effects, id ∈ effect.bindings.ids

/-- A finding of a kind about a subject is true of a graph. -/
inductive Graph.Warranted (g : Graph) (source : Export) (visits : Context → Prop) :
    FindingKind → String → Prop
  | missing {id : VariableId} (absent : g.find? id = none) (named : source.Names id) :
      Warranted g source visits .missingVariable id.text
  | circular {v : Variable} {context : Context} (declared : v ∈ source.nodes)
      (visited : visits context)
      (circle : Relation.TransGen (fun hop next => g.target? context hop = some next) v.id v.id) :
      Warranted g source visits .circularReference v.path
  | empty {v : Variable} (declared : v ∈ source.nodes) (bare : ∀ mode, v.entry? mode = none) :
      Warranted g source visits .noValueForMode v.path

namespace Pipeline

/-- The contexts in which a run reads the graph. -/
inductive Visits (p : Pipeline) : Context → Prop
  | unspecified : Visits p .unspecified
  | breakpoint {brand : Brand} {breakpoint : AxisMode} (hbrand : brand ∈ p.config.brands)
      (hbreakpoint : breakpoint ∈ p.config.breakpoints) :
      Visits p (Cell.ofBrandBreakpoint brand breakpoint).context
  | colorMode {brand : Brand} {colorMode : AxisMode} (hbrand : brand ∈ p.config.brandsWithPalette)
      (hcolorMode : colorMode ∈ p.config.colorModes) :
      Visits p (Cell.ofBrandColorMode brand colorMode).context
  | density {brand : Brand} {breakpoint density : AxisMode} (hbrand : brand ∈ p.config.brands)
      (hbreakpoint : breakpoint ∈ p.config.breakpoints) (hdensity : density ∈ p.config.densities) :
      Visits p (Cell.ofDensity brand breakpoint density).context

/-- The ids that a run asks the graph about. -/
inductive Asks (p : Pipeline) : VariableId → Prop
  | node {v : Variable} (hv : v ∈ p.graph.nodes) : Asks p v.id
  | text {style : TextStyle} {id : VariableId} (hstyle : style ∈ p.graph.textStyles)
      (hid : id ∈ style.bindings.ids) : Asks p id
  | effect {style : EffectStyle} {effect : Effect} {id : VariableId}
      (hstyle : style ∈ p.graph.effectStyles) (heffect : effect ∈ style.effects)
      (hid : id ∈ effect.bindings.ids) : Asks p id

/-- A finding is one that a run makes by resolving, apart from its detail. -/
def Noted (p : Pipeline) (finding : Finding) : Prop :=
  ∃ context id, p.Visits context ∧ p.Asks id ∧ ∃ f ∈ (p.graph.resolve context id).findings,
    f.kind = finding.kind ∧ f.subject = finding.subject

variable {p : Pipeline} {context : Context} {id : VariableId} {stops : Stops} {flags : Acceptance}
  {v : Variable} {cell : Cell}

/-! ## Questions to the graph -/

section

variable (visits : p.Visits context) (asks : p.Asks id)

include visits asks

theorem noted_resolve : ∀ f ∈ (p.graph.resolve context id).findings, p.Noted f :=
  fun f hf => ⟨context, id, visits, asks, f, hf, rfl, rfl⟩

/-- However it is put into words that an id is missing, resolving it notes that as well. -/
theorem noted_missing (absent : p.graph.find? id = none) (detail : String) :
    p.Noted ⟨.missingVariable, id.text, detail⟩ := by
  refine ⟨context, id, visits, asks, p.graph.missingFinding [] id, ?_, rfl, rfl⟩
  rw [Graph.resolve_of_unknown absent]
  exact List.mem_singleton_self _

theorem noted_endpoint : ∀ f ∈ (p.graph.endpoint context stops id).findings, p.Noted f := by
  intro f hf
  cases found : p.graph.find? id with
  | none =>
      rw [Graph.endpoint, found] at hf
      obtain rfl := List.mem_singleton.mp hf
      exact noted_missing visits asks found _
  | some v =>
      rw [Graph.endpoint_eq_of_resolve found] at hf
      refine noted_resolve visits asks f ?_
      simp only [Graph.findingsBeside] at hf
      split at hf
      · cases hf
      · exact (List.mem_filter.mp hf).1

private theorem noted_endpointOfReference :
    ∀ f ∈ (p.graph.endpointOfReference context stops id).findings, p.Noted f := by
  intro f hf
  cases found : p.graph.find? id with
  | none =>
      rw [Graph.endpointOfReference, found] at hf
      obtain rfl := List.mem_singleton.mp hf
      exact noted_missing visits asks found _
  | some v =>
      simp only [Graph.endpointOfReference, found] at hf
      split at hf
      · cases hf
      · exact noted_endpoint visits asks f hf

end

section

variable (visits : p.Visits context)

include visits

/-! ## Files -/

theorem noted_token (hv : v ∈ p.graph.nodes) : ∀ f ∈ (p.token context v).findings, p.Noted f := by
  simp only [token, Logged.findings_bind, Logged.findings_pure, List.append_nil,
    List.forall_mem_append]
  exact ⟨noted_resolve visits (.node hv), noted_endpoint visits (.node hv)⟩

omit visits in
theorem noted_filesIn {select : Variable → Bool} (visits : p.Visits cell.context) :
    ∀ f ∈ (p.filesIn select cell).findings, p.Noted f := by
  rw [findings_filesIn, List.forall_mem_flatMap]
  exact fun v hv => noted_token visits (List.mem_filter.mp hv).1

omit visits in
theorem noted_primitiveFile {collection : Collection} :
    ∀ f ∈ (p.primitiveFile collection).findings, p.Noted f := by
  simp only [primitiveFile, Logged.findings_bind, Logged.findings_pure, Logged.findings_forList,
    List.append_nil, List.forall_mem_flatMap]
  exact fun v hv => noted_token .unspecified (List.mem_filter.mp hv).1

/-! ## Bound properties -/

theorem noted_bind (asks : p.Asks id) : ∀ f ∈ (p.bind context flags id).findings, p.Noted f := by
  simp only [bind, Graph.value, Logged.findings_bind, Logged.findings_pure, List.append_nil,
    List.forall_mem_append]
  exact ⟨noted_resolve visits asks, noted_endpointOfReference visits asks⟩

theorem noted_bindNumber (asks : p.Asks id) :
    ∀ f ∈ (p.bindNumber context flags id).findings, p.Noted f := by
  simpa only [bindNumber, Logged.findings_bind, Logged.findings_pure, List.append_nil] using
    noted_bind visits asks

theorem noted_bindText (asks : p.Asks id) :
    ∀ f ∈ (p.bindText context flags id).findings, p.Noted f := by
  simpa only [bindText, Logged.findings_bind, Logged.findings_pure, List.append_nil] using
    noted_bind visits asks

private theorem noted_bindWeight (asks : p.Asks id) :
    ∀ f ∈ (p.bindWeight context flags id).findings, p.Noted f := by
  simpa only [bindWeight, Logged.findings_bind, Logged.findings_pure, List.append_nil] using
    noted_bind visits asks

omit visits in
theorem noted_boundOr {α : Type} {bind : VariableId → Logged (Property α)}
    {id : Option VariableId} {literal : Option α}
    (h : ∀ i ∈ id, ∀ f ∈ (bind i).findings, p.Noted f) :
    ∀ f ∈ (boundOr bind id literal).findings, p.Noted f := by
  cases id with
  | none => simp [boundOr]
  | some i => simpa [boundOr] using h i rfl

/-! ## Composites -/

private theorem noted_typographyOf {style : TextStyle} (hstyle : style ∈ p.graph.textStyles) :
    ∀ f ∈ (p.typographyOf context style).findings, p.Noted f := by
  have hasks : ∀ id ∈ style.bindings.ids, p.Asks id := fun id hid => .text hstyle hid
  obtain ⟨hfamily, hweight, hstyle, hsize, hheight, hspacing⟩ :=
    TextBindings.forall_mem_ids_iff.mp hasks
  simp only [typographyOf, Logged.findings_bind, Logged.findings_pure, List.append_nil,
    List.forall_mem_append]
  exact ⟨noted_boundOr fun id hid => noted_bindText visits (hfamily id hid),
    noted_boundOr fun id hid => noted_bindWeight visits (hweight id hid),
    noted_boundOr fun id hid => noted_bindText visits (hstyle id hid),
    noted_boundOr fun id hid => noted_bindNumber visits (hsize id hid),
    noted_boundOr fun id hid => noted_bindNumber visits (hheight id hid),
    noted_boundOr fun id hid => noted_bindNumber visits (hspacing id hid)⟩

theorem noted_dimension {id : Option VariableId} {literal : Binary64} (h : ∀ i ∈ id, p.Asks i) :
    ∀ f ∈ (p.dimension context id literal).findings, p.Noted f := by
  cases id with
  | none => simp [dimension]
  | some i => exact noted_bindNumber visits (h i rfl)

private theorem noted_shadow {effect : Effect} (h : ∀ id ∈ effect.bindings.ids, p.Asks id) :
    ∀ f ∈ (p.shadow context effect).findings, p.Noted f := by
  obtain ⟨hcolor, hx, hy, hradius, hspread⟩ := EffectBindings.forall_mem_ids_iff.mp h
  unfold shadow
  cases heq : effect.bindings.color with
  | none =>
      simp only [Logged.findings_bind, Logged.findings_pure, List.append_nil, List.nil_append,
        List.forall_mem_append]
      exact ⟨noted_dimension visits hx, noted_dimension visits hy, noted_dimension visits hradius,
        noted_dimension visits hspread⟩
  | some id =>
      simp only [Logged.findings_bind, Logged.findings_pure, List.append_nil,
        List.forall_mem_append]
      exact ⟨noted_bindText visits (hcolor id heq), noted_dimension visits hx,
        noted_dimension visits hy, noted_dimension visits hradius, noted_dimension visits hspread⟩

omit visits in
theorem noted_effectOf (visits : p.Visits cell.context) {style : EffectStyle}
    (hstyle : style ∈ p.graph.effectStyles) :
    ∀ f ∈ (p.effectOf cell style).findings, p.Noted f := by
  simp only [effectOf, Logged.findings_bind, Logged.findings_pure, Logged.findings_forList,
    List.append_nil, List.forall_mem_flatMap]
  exact fun effect heffect => noted_shadow visits fun id hid =>
    .effect hstyle (List.mem_filter.mp heffect).1 hid

end

end Pipeline

/-! ## The density matrix -/

/-- What holds of the findings of each test holds of those of a search. -/
theorem Logged.forall_mem_findings_anyOf {α : Type} {P : Finding → Prop} {items : List α}
    {test : α → Logged Bool} (h : ∀ item ∈ items, ∀ f ∈ (test item).findings, P f) :
    ∀ f ∈ (anyOf items test).findings, P f := by
  induction items with
  | nil => simp [anyOf]
  | cons item rest ih =>
      obtain ⟨hitem, hrest⟩ := List.forall_mem_cons.mp h
      rw [anyOf, findings_bind, List.forall_mem_append]
      refine ⟨hitem, ?_⟩
      split
      · simp
      · exact ih hrest

namespace Pipeline

variable {p : Pipeline} {v : Variable} {cell : Cell}

private theorem noted_densityCell (visits : p.Visits cell.context) (hv : v ∈ p.graph.nodes) :
    ∀ f ∈ (p.densityCell v cell).findings, p.Noted f := by
  simp only [densityCell, Graph.value, Logged.findings_bind, Logged.findings_pure,
    List.append_nil, List.forall_mem_append]
  exact ⟨noted_resolve visits (.node hv), noted_endpoint visits (.node hv)⟩

private theorem noted_densityRows {brand : Brand} {probes cells : List Cell}
    (hprobes : ∀ cell ∈ probes, p.Visits cell.context)
    (hcells : ∀ cell ∈ cells, p.Visits cell.context) :
    ∀ f ∈ (p.densityRows brand probes cells).findings, p.Noted f := by
  simp only [densityRows, Logged.findings_bind, Logged.findings_pure, Logged.findings_forList,
    List.append_nil, List.forall_mem_flatMap]
  intro v hv
  have hv : v ∈ p.graph.nodes := (List.mem_filter.mp hv).1
  rw [densityToken?, Logged.findings_bind, List.forall_mem_append]
  constructor
  · refine Logged.forall_mem_findings_anyOf fun cell hcell => ?_
    simpa [Graph.reachesDensity] using noted_endpoint (hprobes cell hcell) (.node hv)
  · split
    · simp only [Logged.findings_bind, Logged.findings_pure, Logged.findings_forList,
        List.append_nil, List.forall_mem_flatMap]
      exact fun cell hcell => noted_densityCell (hcells cell hcell) hv
    · simp

/-! ## Categories -/

section

variable (valid : p.config.Valid)

include valid

theorem visits_of_mem_breakpointCells {cells : List Cell} (h : p.breakpointCells = .ok cells) :
    ∀ cell ∈ cells, p.Visits cell.context := by
  obtain rfl := Except.ok_unique h (breakpointCells_eq valid)
  intro cell hcell
  obtain ⟨brand, hbrand, hcell⟩ := List.mem_flatMap.mp hcell
  obtain ⟨breakpoint, hbreakpoint, rfl⟩ := List.mem_map.mp hcell
  exact .breakpoint hbrand hbreakpoint

theorem visits_of_mem_colorCells {cells : List Cell} (h : p.colorCells = .ok cells) :
    ∀ cell ∈ cells, p.Visits cell.context := by
  obtain rfl := Except.ok_unique h (colorCells_eq valid)
  intro cell hcell
  obtain ⟨brand, hbrand, hcell⟩ := List.mem_flatMap.mp hcell
  obtain ⟨colorMode, hcolorMode, rfl⟩ := List.mem_map.mp hcell
  exact .colorMode hbrand hcolorMode

private theorem noted_tokenFiles {files : Logged (List TokenFile)} (h : p.tokenFiles = .ok files) :
    ∀ f ∈ files.findings, p.Noted f := by
  obtain ⟨sized, colored, hsized, hcolored, rfl⟩ := exists_cells_of_tokenFiles h
  simp only [Logged.findings_bind, Logged.findings_pure, Logged.findings_forList, List.append_nil,
    List.forall_mem_append, List.forall_mem_flatMap]
  exact ⟨fun collection _ => noted_primitiveFile,
    fun cell hcell => noted_filesIn (visits_of_mem_breakpointCells valid hsized cell hcell),
    fun cell hcell => noted_filesIn (visits_of_mem_colorCells valid hcolored cell hcell)⟩

private theorem noted_typography {composites : Logged (List TypographyToken)}
    (h : p.typography = .ok composites) : ∀ f ∈ composites.findings, p.Noted f := by
  obtain ⟨cells, hcells, h⟩ := Except.bind_eq_ok_iff.mp h
  obtain rfl := Except.pure_eq_ok_iff.mp h
  simp only [Functor.map, Function.comp_apply, Logged.findings_bind, Logged.findings_pure,
    Logged.findings_forList, typographyIn, List.append_nil, List.forall_mem_flatMap]
  exact fun cell hcell style hstyle =>
    noted_typographyOf (visits_of_mem_breakpointCells valid hcells cell hcell) hstyle

private theorem noted_effects {composites : Logged (List EffectToken)}
    (h : p.effects = .ok composites) : ∀ f ∈ composites.findings, p.Noted f := by
  obtain ⟨cells, hcells, h⟩ := Except.bind_eq_ok_iff.mp h
  obtain rfl := Except.pure_eq_ok_iff.mp h
  simp only [Functor.map, Function.comp_apply, Logged.findings_forList, effectsIn, List.append_nil,
    List.forall_mem_flatMap]
  exact fun cell hcell style hstyle =>
    noted_effectOf (visits_of_mem_colorCells valid hcells cell hcell) hstyle

private theorem noted_densityMatrix {rows : Logged (List DensityToken)}
    (h : p.densityMatrix = .ok rows) : ∀ f ∈ rows.findings, p.Noted f := by
  obtain rfl := Except.ok_unique h (densityMatrix_eq valid)
  split
  · simp
  · simp only [Functor.map, Function.comp_apply, Logged.findings_forList, List.append_nil,
      List.forall_mem_flatMap]
    intro brand hbrand
    refine noted_densityRows ?_ ?_
    · intro cell hcell
      obtain ⟨breakpoint, hbreakpoint, rfl⟩ := List.mem_map.mp hcell
      exact .breakpoint hbrand hbreakpoint
    · intro cell hcell
      obtain ⟨breakpoint, hbreakpoint, hcell⟩ := List.mem_flatMap.mp hcell
      obtain ⟨density, hdensity, rfl⟩ := List.mem_map.mp hcell
      exact .density hbrand hbreakpoint hdensity

/-- All findings of a token set are noted by resolving. -/
theorem noted_tokens {built : Logged TokenSet} (h : p.tokens = .ok built) :
    ∀ f ∈ built.findings, p.Noted f := by
  obtain ⟨files, typography, effects, density, hfiles, htypography, heffects, hdensity, -, heq⟩ :=
    tokens_eq_ok h
  simp only [heq, List.forall_mem_append]
  exact ⟨noted_tokenFiles valid hfiles, noted_typography valid htypography,
    noted_effects valid heffects, noted_densityMatrix valid hdensity⟩

end

/-! ## The ends of walks -/

variable {source : Export} {overrides : List KindOverride} {id : VariableId}

/-- A run asks about a variable that does not exist only because a style is bound to it. -/
theorem Asks.names (built : Graph.ofExport source overrides = .ok p.graph) (asks : p.Asks id)
    (absent : p.graph.find? id = none) : source.Names id := by
  obtain ⟨-, -, htexts, heffects⟩ := Graph.ofExport_eq_ok built
  cases asks with
  | node hv =>
      have hknown := Graph.find?_isSome_iff.mpr ⟨_, hv, rfl⟩
      rw [absent] at hknown
      cases hknown
  | text hstyle hid => exact .inr (.inl ⟨_, htexts ▸ hstyle, hid⟩)
  | effect hstyle heffect hid => exact .inr (.inr ⟨_, heffects ▸ hstyle, _, heffect, hid⟩)

/-- What is noted is true, by the walk that noted it. -/
theorem Noted.warranted {finding : Finding} (noted : p.Noted finding)
    (built : Graph.ofExport source overrides = .ok p.graph) :
    p.graph.Warranted source p.Visits finding.kind finding.subject := by
  obtain ⟨context, id, visits, asks, f, hf, hkind, hsubject⟩ := noted
  rw [← hkind, ← hsubject]
  have hnodes := Graph.nodes_of_ofExport built
  have resolves := Graph.resolves_resolve p.graph context id
  generalize p.graph.resolve context id = result at resolves hf
  cases resolves with
  | absent unknown =>
      obtain rfl := List.mem_singleton.mp hf
      exact .missing unknown (asks.names built unknown)
  | walk walk hlast found ending =>
      cases ending with
      | literal read => cases hf
      | empty read =>
          obtain rfl := List.mem_singleton.mp hf
          obtain ⟨hmem, -⟩ := Graph.find?_eq_some_iff.mp found
          have hempty := ((Graph.sound_of_ofExport built).entry?_eq_none_iff hmem context).mp read
          refine .empty (hnodes ▸ hmem) fun mode => ?_
          exact Table.get?_eq_none_iff.mpr (by simp [hempty])
      | missing read unknown =>
          obtain rfl := List.mem_singleton.mp hf
          have halias :=
            Graph.aliases_of_target? built ((Graph.target?_eq_some_iff found).mpr read)
          exact .missing unknown (.inl ⟨_, halias⟩)
      | circular read visited =>
          obtain rfl := List.mem_singleton.mp hf
          have hcircle :=
            walk.transGen_of_mem hlast ((Graph.target?_eq_some_iff found).mpr read) visited
          -- the subject is the variable that the walk came back to
          obtain ⟨v, hv⟩ := Option.isSome_iff_exists.mp (walk.known _ visited)
          obtain ⟨hmem, rfl⟩ := Graph.find?_eq_some_iff.mp hv
          have hpath : p.graph.pathOf v.id = v.path := by simp [Graph.pathOf, hv]
          rw [Graph.circularFinding, hpath]
          exact .circular (hnodes ▸ hmem) visits hcircle

/-! ## Runs -/

/-- **Diagnostics raise no false alarm.**  Whatever the export, the configuration and the options,
the diagnostics that a run gathers are true: an id reported as missing is the id of no variable and
stands in the export, in an alias or bound to a style; a variable reported as circular lies on a
circle of aliases as they are selected in one context of the run; and a variable reported to have no
value holds no entry in any mode.  If the policy lets the run hand over an output, these are the
diagnostics of its summary. -/
theorem diagnostics_warranted {config : Configuration} {options : Options}
    (created : create source config options = .ok p) :
    ∃ logged, p.outcome = .ok logged ∧ (∀ output, p.run = .ok output → output = logged.value) ∧
      ∀ d ∈ logged.value.summary.diagnostics,
        (d.kind = .missingVariable →
          ∃ id, d.subject = id.text ∧ p.graph.find? id = none ∧ source.Names id) ∧
        (d.kind = .circularReference →
          ∃ v ∈ source.nodes, d.subject = v.path ∧ ∃ context, p.Visits context ∧
            Relation.TransGen (fun hop next => p.graph.target? context hop = some next)
              v.id v.id) ∧
        (d.kind = .noValueForMode →
          ∃ v ∈ source.nodes, d.subject = v.path ∧ ∀ mode, v.entry? mode = none) := by
  obtain ⟨valid, built, rfl, -⟩ := create_eq_ok_iff.mp created
  obtain ⟨tokens, htokens⟩ := p.exists_tokens_eq_ok
  refine ⟨_, outcome_eq_ok htokens, fun output ran => ((run_eq_ok_iff htokens).mp ran).1, ?_⟩
  intro d hd
  have hfinding : ∃ finding ∈ tokens.findings ++
      (tokens.value.attachRatios p.options.ratios).findings,
        finding.kind = d.kind ∧ finding.subject = d.subject := by
    rcases Diagnostics.mem_topics_pushAll_iff.mp (List.mem_map_of_mem hd) with hold | hfinding
    · cases hold
    · obtain ⟨finding, hmem, htopic⟩ := List.mem_map.mp hfinding
      exact ⟨finding, hmem, congrArg Topic.kind htopic, congrArg Topic.subject htopic⟩
  obtain ⟨finding, hmem, hkind, hsubject⟩ := hfinding
  rcases List.mem_append.mp hmem with hmem | hmem
  · have warranted := (noted_tokens valid htokens finding hmem).warranted built
    rw [hkind, hsubject] at warranted
    generalize d.kind = kind at warranted ⊢
    generalize d.subject = subject at warranted ⊢
    cases warranted with
    | missing absent named => exact ⟨fun _ => ⟨_, rfl, absent, named⟩, nofun, nofun⟩
    | circular declared visited circle =>
        exact ⟨nofun, fun _ => ⟨_, declared, rfl, _, visited, circle⟩, nofun⟩
    | empty declared bare => exact ⟨nofun, nofun, fun _ => ⟨_, declared, rfl, bare⟩⟩
  -- attaching ratios notes other kinds only
  · rcases (RatioReport.Tallies.attachRatios _ _).kinds finding hmem with h | h
    · rw [← hkind, h]
      exact ⟨nofun, nofun, nofun⟩
    · rw [← hkind, h]
      exact ⟨nofun, nofun, nofun⟩

end Pipeline

/-! ## An export with everything amiss -/

namespace Sample

/-- An alias of a variable that does not exist. -/
def astray : Variable :=
  ⟨⟨"astray"⟩, "Text/astray", breakpoints.id, .float,
    Table.empty.insert ⟨"sm"⟩ (.alias ⟨"ghost"⟩)⟩

/-- An alias of itself. -/
def spin : Variable :=
  ⟨⟨"spin"⟩, "Text/spin", breakpoints.id, .float,
    Table.empty.insert ⟨"sm"⟩ (.alias ⟨"spin"⟩)⟩

/-- A variable that leads into a circle without being on it. -/
def dizzy : Variable :=
  ⟨⟨"dizzy"⟩, "Text/dizzy", breakpoints.id, .float,
    Table.empty.insert ⟨"sm"⟩ (.alias spin.id)⟩

def hollow : Variable := ⟨⟨"hollow"⟩, "Text/hollow", breakpoints.id, .float, .empty⟩

def amissSource : Export where
  collections := [sizes, breakpoints].map fun c => ⟨c.id, c.name, c.modes⟩
  nodes := [astray, dizzy, spin, hollow]
  textStyles := [{ id := "lost", name := "Lost", bindings := { fontFamily := some ⟨"spirit"⟩ } }]

def amiss : Pipeline :=
  { typesetting with
    graph :=
      { collectionIndex := .ofList [sizes, breakpoints]
        nodeIndex := .ofList amissSource.nodes
        textStyles := amissSource.textStyles
        effectStyles := [] } }

/-- Two missing ids, one circle and one variable without entries are reported.  The circle is
reported where it is closed, from whichever variable it was reached. -/
theorem diagnostics_of_amiss :
    Pipeline.create amissSource amiss.config {} = .ok amiss ∧
      ∃ logged, amiss.outcome = .ok logged ∧
        (logged.value.summary.diagnostics.map fun d => (d.kind, d.subject)) =
          [(.missingVariable, "ghost"), (.circularReference, "Text/spin"),
            (.noValueForMode, "Text/hollow"), (.missingVariable, "spirit")] ∧
        ∀ d ∈ logged.value.summary.diagnostics, d.kind = .missingVariable →
          ∃ id, d.subject = id.text ∧ amiss.graph.find? id = none ∧ amissSource.Names id := by
  have hcreated : Pipeline.create amissSource amiss.config {} = .ok amiss :=
    Pipeline.create_eq_ok_iff.mpr
      ⟨Configuration.validate_eq_ok_iff.mp (by decide +kernel), by decide +kernel, rfl, rfl⟩
  obtain ⟨logged, hlogged, -, hwarranted⟩ := Pipeline.diagnostics_warranted hcreated
  have hreported : ∀ logged ∈ amiss.outcome.toOption,
      (logged.value.summary.diagnostics.map fun d => (d.kind, d.subject)) =
        [(.missingVariable, "ghost"), (.circularReference, "Text/spin"),
          (.noValueForMode, "Text/hollow"), (.missingVariable, "spirit")] := by
    decide +kernel
  exact ⟨hcreated, logged, hlogged, hreported logged (by rw [hlogged]; rfl),
    fun d hd => (hwarranted d hd).1⟩

end Sample

end DesignTokens
