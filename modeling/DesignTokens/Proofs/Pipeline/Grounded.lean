import DesignTokens.Proofs.Pipeline.Findings

/-!
# Runs on well-formed exports

Whatever a run notes while it builds the tokens, resolving some variable of the graph or some id
that a style is bound to notes as well (`Pipeline.noted_tokens`).  In a well-formed export all of
these ids are variables and come to a value, so the token set comes without findings
(`Pipeline.findings_tokens`).  Attaching the ratios adds findings about ratios only, and these are
not fatal under the strict policy.
-/

namespace DesignTokens

namespace Pipeline

variable {p : Pipeline} {source : Export} {overrides : List KindOverride} {id : VariableId}

/-- In a well-formed export a run asks about variables only. -/
theorem Asks.find?_isSome (formed : source.WellFormed)
    (built : Graph.ofExport source overrides = .ok p.graph) (asks : p.Asks id) :
    (p.graph.find? id).isSome := by
  obtain ⟨-, -, htexts, heffects⟩ := Graph.ofExport_eq_ok built
  cases asks with
  | node hv => exact Graph.find?_isSome_iff.mpr ⟨_, hv, rfl⟩
  | text hstyle hid =>
      exact Graph.find?_isSome_of_declares built
        (formed.textStyles _ (htexts ▸ hstyle) _ hid)
  | effect hstyle heffect hid =>
      exact Graph.find?_isSome_of_declares built
        (formed.effectStyles _ (heffects ▸ hstyle) _ heffect _ hid)

/-- A token set of a well-formed export comes without findings. -/
theorem findings_tokens (formed : source.WellFormed) (valid : p.config.Valid)
    (built : Graph.ofExport source overrides = .ok p.graph) {tokens : Logged TokenSet}
    (h : p.tokens = .ok tokens) : tokens.findings = [] := by
  refine List.eq_nil_iff_forall_not_mem.mpr fun finding hfinding => ?_
  obtain ⟨context, id, -, asks, f, hf, -⟩ := noted_tokens valid h finding hfinding
  rw [(formed.resolve built (asks.find?_isSome formed built) context).2] at hf
  cases hf

/-- **A well-formed export has no soft failures.**  If all ids in an export name variables, every
variable holds an entry, and no aliases lead in a circle, then whatever the configuration and the
options: in every context every variable comes to a value, and neither resolving it nor looking for
an endpoint, from it or from a reference to it, notes anything.  Under the strict policy a run hands
over an output, and its diagnostics are about ratios. -/
theorem no_findings_of_wellFormed {config : Configuration} {options : Options}
    (created : create source config options = .ok p) (formed : source.WellFormed) :
    (∀ v ∈ source.nodes, ∀ context stops,
      (p.graph.resolve context v.id).value.value.isResolved ∧
        (p.graph.resolve context v.id).findings = [] ∧
        (p.graph.endpoint context stops v.id).findings = [] ∧
        (p.graph.endpointOfReference context stops v.id).findings = []) ∧
      (options.policy = .strict → ∃ output, p.run = .ok output ∧
        ∀ d ∈ output.summary.diagnostics, d.kind = .ratioConflict ∨ d.kind = .missingRatio) := by
  obtain ⟨valid, built, rfl, rfl⟩ := create_eq_ok_iff.mp created
  constructor
  · intro v hv context stops
    have hid := Graph.find?_isSome_of_declares built ⟨v, hv, rfl⟩
    have hresolve := formed.resolve built hid context
    exact ⟨hresolve.1, hresolve.2, formed.findings_endpoint built hid context stops,
      formed.findings_endpointOfReference built hid context stops⟩
  · intro hstrict
    obtain ⟨tokens, htokens⟩ := p.exists_tokens_eq_ok
    -- building the tokens notes nothing, so all findings come from attaching the ratios
    have hkinds : ∀ finding ∈ (Output.ofTokens p.options.ratios tokens).findings,
        finding.kind = .ratioConflict ∨ finding.kind = .missingRatio := by
      intro finding hfinding
      have hmem : finding ∈ tokens.findings ++
        (tokens.value.attachRatios p.options.ratios).findings := hfinding
      rw [findings_tokens formed valid built htokens, List.nil_append] at hmem
      exact ((RatioReport.Tallies.attachRatios _ _).kinds finding hmem).symm
    refine ⟨_, (run_eq_ok_iff htokens).mpr ⟨rfl, ?_⟩, ?_⟩
    · intro finding hfinding
      rw [hstrict]
      rcases hkinds finding hfinding with h | h <;> rw [h] <;> decide
    · intro d hd
      have hentry : ∃ entry ∈ (Diagnostics.pushAll {}
        (Output.ofTokens p.options.ratios tokens).findings).entries, entry.kind = d.kind :=
          ⟨d, hd, rfl⟩
      rcases Diagnostics.exists_mem_pushAll_iff.mp hentry with ⟨old, hold, -⟩ | ⟨finding, hmem, heq⟩
      · cases hold
      · exact heq ▸ hkinds finding hmem

end Pipeline

/-! ## A small well-formed export -/

namespace Sample

/-- At the small breakpoint an alias of a primitive, at the large one read from the small one. -/
def caption : Variable :=
  ⟨⟨"caption"⟩, "Text/captionLineHeight", breakpoints.id, .float,
    Table.empty.insert ⟨"sm"⟩ (.alias sixteen.id)⟩

/-- An alias of the caption at both breakpoints. -/
def label : Variable :=
  ⟨⟨"label"⟩, "Text/labelLineHeight", breakpoints.id, .float,
    (Table.empty.insert ⟨"sm"⟩ (.alias caption.id)).insert ⟨"lg"⟩ (.alias caption.id)⟩

def groundedSource : Export where
  collections := [sizes, breakpoints].map fun c => ⟨c.id, c.name, c.modes⟩
  nodes := [sixteen, caption, label]
  textStyles := [{ id := "label", name := "Label", bindings := { lineHeight := some label.id } }]

def groundedOptions : Options := { policy := .strict }

def grounded : Pipeline :=
  { typesetting with
    graph :=
      { collectionIndex := .ofList [sizes, breakpoints]
        nodeIndex := .ofList groundedSource.nodes
        textStyles := groundedSource.textStyles
        effectStyles := [] }
    options := groundedOptions }

/-- The place of a variable in the order that aliases lead down. -/
def groundedRank (id : VariableId) : Nat :=
  if id = label.id then 2 else if id = caption.id then 1 else 0

theorem wellFormed_groundedSource : groundedSource.WellFormed where
  aliases := by
    intro id target halias
    obtain ⟨v, hv, -, entry, hentry, htarget⟩ := halias.exists_entry
    have hknown : ∀ v ∈ groundedSource.nodes, ∀ entry ∈ v.entries.entries,
        ∀ target ∈ entry.2.target?, ∃ w ∈ groundedSource.nodes, w.id = target := by
      decide
    exact hknown v hv entry hentry target htarget
  textStyles := by
    show ∀ style ∈ groundedSource.textStyles, ∀ id ∈ style.bindings.ids,
      ∃ v ∈ groundedSource.nodes, v.id = id
    decide
  effectStyles := by
    rintro style ⟨⟩
  filled := by decide
  acyclic := by
    refine Export.not_transGen_aliases_of_rank groundedRank fun id target halias => ?_
    obtain ⟨v, hv, rfl, entry, hentry, htarget⟩ := halias.exists_entry
    have hdown : ∀ v ∈ groundedSource.nodes, ∀ entry ∈ v.entries.entries,
        ∀ target ∈ entry.2.target?, groundedRank target < groundedRank v.id := by
      decide
    exact hdown v hv entry hentry target htarget

/-- The caption has no font size to go with, so the run has a diagnostic, but it hands over an
output. -/
theorem no_findings_of_groundedSource :
    Pipeline.create groundedSource typesetting.config groundedOptions = .ok grounded ∧
      groundedSource.WellFormed ∧
      ∃ output, grounded.run = .ok output ∧ output.summary.diagnostics ≠ [] := by
  have hcreated : Pipeline.create groundedSource typesetting.config groundedOptions =
      .ok grounded :=
    Pipeline.create_eq_ok_iff.mpr
      ⟨Configuration.validate_eq_ok_iff.mp (by decide +kernel), by decide +kernel, rfl, rfl⟩
  obtain ⟨output, hran, -⟩ :=
    (Pipeline.no_findings_of_wellFormed hcreated wellFormed_groundedSource).2 rfl
  refine ⟨hcreated, wellFormed_groundedSource, output, hran, ?_⟩
  have hnoted : ∀ output ∈ grounded.run.toOption, output.summary.diagnostics ≠ [] := by
    decide +kernel
  exact hnoted output (by rw [hran]; rfl)

end Sample

end DesignTokens
