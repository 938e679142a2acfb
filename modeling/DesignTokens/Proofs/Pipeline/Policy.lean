import DesignTokens.Proofs.Pipeline.Provenance
import DesignTokens.Proofs.Graph.Walk

/-!
# What a policy keeps out

A value that stands for a failure is never without a finding of its kind: the walk that ended in it
noted one, and findings are gathered, counted and held against the policy without a loss.  So a kind
that the policy does not allow keeps the values of that kind out of every output.
-/

namespace DesignTokens

/-- A value that a graph draws for a reason has a finding of the kind of that reason beside it. -/
theorem Graph.Draws.exists_finding {g : Graph} {values : List Value} {findings : List Finding}
    (draws : g.Draws values findings) {reason : Unresolved} (h : .unresolved reason ∈ values) :
    ∃ finding ∈ findings, finding.kind = reason.findingKind := by
  obtain ⟨context, id, hresolve, hnoted⟩ := draws _ h
  have hkinds := (Graph.resolves_resolve g context id).findings_eq
  rw [hresolve] at hkinds
  have hkind : reason.findingKind ∈
      (g.resolve context id).findings.map Finding.kind := by
    rw [hkinds]
    exact List.mem_singleton_self _
  obtain ⟨finding, hfinding, heq⟩ := List.mem_map.mp hkind
  exact ⟨finding, hnoted hfinding, heq⟩

/-- Attaching ratios leaves all values as they are. -/
theorem TokenSet.values_attachRatios (tokens : TokenSet) (options : RatioOptions) :
    (tokens.attachRatios options).value.1.values = tokens.values := by
  have hfile : ∀ file : TokenFile, (tokens.attached options file).values = file.values := by
    intro file
    unfold attached
    split
    · have htoken : ∀ token outcome, (Ratio.apply token outcome).value = token.value := by
        intro token outcome
        cases outcome <;> rfl
      simp [Ratio.attachTo, TokenFile.values, Function.comp_def, htoken]
    · rfl
  simp [value_attachRatios, values, List.flatMap_map, hfile]

namespace Pipeline

variable {p : Pipeline} {output : Output}

/-- In the output of a run no value stands for a failure of a fatal kind. -/
theorem unresolved_not_mem_values (ran : p.run = .ok output) {reason : Unresolved}
    (hfatal : reason.findingKind ∈ p.options.policy.fatal) :
    .unresolved reason ∉ output.tokens.values := by
  obtain ⟨built, hbuilt⟩ := p.exists_tokens_eq_ok
  obtain ⟨rfl, hallowed⟩ := (run_eq_ok_iff hbuilt).mp ran
  intro hmem
  -- the value was there before the ratios, and so was its finding
  have hdrawn : .unresolved reason ∈ built.value.values := by
    rw [← TokenSet.values_attachRatios built.value p.options.ratios]
    exact hmem
  obtain ⟨finding, hfinding, hkind⟩ := (draws_tokens hbuilt).exists_finding hdrawn
  refine hallowed finding (List.mem_append_left _ hfinding) ?_
  rw [hkind]
  exact hfatal

/-- Under the strict policy all values of an output are resolved. -/
theorem isResolved_of_strict (hstrict : p.options.policy = .strict) (ran : p.run = .ok output) :
    ∀ value ∈ output.tokens.values, value.isResolved := by
  intro value hvalue
  cases value with
  | unresolved reason =>
      have hfatal : reason.findingKind ∈ p.options.policy.fatal := by
        rw [hstrict]
        cases reason <;> decide
      exact absurd hvalue (unresolved_not_mem_values ran hfatal)
  | color s => rfl
  | float x => rfl
  | text s => rfl
  | bool b => rfl

/-- A run fails exactly if there is a finding that the policy does not allow. -/
theorem exists_run_eq_error_iff {built : Logged TokenSet} (hbuilt : p.tokens = .ok built) :
    (∃ e, p.run = .error e) ↔ ∃ finding ∈ (Output.ofTokens p.options.ratios built).findings,
      finding.kind ∈ p.options.policy.fatal := by
  cases hrun : p.run with
  | error e =>
      have hforbidden := mt (fun hallowed => (run_eq_ok_iff hbuilt).mpr ⟨rfl, hallowed⟩)
        (by simp [hrun])
      simpa using hforbidden
  | ok output =>
      obtain ⟨-, hallowed⟩ := (run_eq_ok_iff hbuilt).mp hrun
      simpa using hallowed

/-- **A policy keeps out what it does not allow.**  If a run hands over an output, no token of a
file and no cell of the density matrix has a value that stands for a failure of a fatal kind; under
the strict policy all values are resolved.  And a run fails exactly if some fatal kind has an entry
among the gathered findings of building the tokens and attaching the ratios. -/
theorem policy_keeps_out_fatal (p : Pipeline) :
    (∀ output, p.run = .ok output →
      ∀ reason : Unresolved, reason.findingKind ∈ p.options.policy.fatal →
        (∀ file ∈ output.tokens.files, ∀ token ∈ file.tokens, token.value ≠ .unresolved reason) ∧
          ∀ row ∈ output.tokens.density, ∀ cell ∈ row.cells, cell.value ≠ .unresolved reason) ∧
      (p.options.policy = .strict → ∀ output, p.run = .ok output →
        (∀ file ∈ output.tokens.files, ∀ token ∈ file.tokens, token.value.isResolved) ∧
          ∀ row ∈ output.tokens.density, ∀ cell ∈ row.cells, cell.value.isResolved) ∧
      ((∃ e, p.run = .error e) ↔ ∃ built, p.tokens = .ok built ∧
        ∃ kind ∈ p.options.policy.fatal, ∃ d ∈ (Diagnostics.pushAll {} (built.findings ++
          (built.value.attachRatios p.options.ratios).findings)).entries, d.kind = kind) := by
  refine ⟨?_, ?_, ?_⟩
  · intro output ran reason hfatal
    have hvalues : ∀ value ∈ output.tokens.values, value ≠ .unresolved reason := by
      rintro value hvalue rfl
      exact unresolved_not_mem_values ran hfatal hvalue
    exact TokenSet.forall_mem_values_iff.mp hvalues
  · intro hstrict output ran
    exact TokenSet.forall_mem_values_iff.mp (isResolved_of_strict hstrict ran)
  · obtain ⟨built, hbuilt⟩ := p.exists_tokens_eq_ok
    rw [exists_run_eq_error_iff hbuilt]
    simp only [hbuilt, Except.ok.injEq, exists_eq_left', Diagnostics.exists_mem_pushAll_iff]
    constructor
    · rintro ⟨finding, hfinding, hfatal⟩
      exact ⟨finding.kind, hfatal, .inr ⟨finding, hfinding, rfl⟩⟩
    · rintro ⟨kind, hfatal, ⟨d, hd, -⟩ | ⟨finding, hfinding, rfl⟩⟩
      · cases hd
      · exact ⟨finding, hfinding, hfatal⟩

end Pipeline

/-! ## A small run under two policies -/

namespace Sample

/-- The small pipeline where variables that do not exist are fatal, and circles are not. -/
def lenient : Pipeline :=
  typesetting.withOptions { policy := ⟨[.missingVariable, .noValueForMode]⟩ }

def strict : Pipeline := typesetting.withOptions { policy := .strict }

def lenientOutput : Output := lenient.run.toOption.getD {}

def strictTokens : Logged TokenSet := strict.tokens.toOption.getD ⟨{}, []⟩

/-- The line height that is an alias of itself is handed over where circles are allowed, and makes
the run fail where they are not. -/
theorem policy_keeps_out_circle :
    lenient.run = .ok lenientOutput ∧
      (∃ file ∈ lenientOutput.tokens.files, ∃ token ∈ file.tokens,
        token.value = .unresolved .circularReference) ∧
      (∀ file ∈ lenientOutput.tokens.files, ∀ token ∈ file.tokens,
        token.value ≠ .unresolved .missingVariable) ∧
      ∃ e, strict.run = .error e := by
  have hran : lenient.run = .ok lenientOutput := Except.eq_ok_of_isOk (by decide +kernel)
  have hbuilt : strict.tokens = .ok strictTokens := Except.eq_ok_of_isOk (by decide +kernel)
  have hkept := (Pipeline.policy_keeps_out_fatal lenient).1 lenientOutput hran .missingVariable
    (by decide)
  refine ⟨hran, by decide +kernel, hkept.1, ?_⟩
  refine (Pipeline.policy_keeps_out_fatal strict).2.2.mpr ⟨strictTokens, hbuilt, ?_⟩
  exact ⟨.circularReference, by decide, by decide +kernel⟩

end Sample

end DesignTokens
