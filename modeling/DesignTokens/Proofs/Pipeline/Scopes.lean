import DesignTokens.Proofs.Pipeline.LookUp
import DesignTokens.Proofs.Text.Path

/-!
# Who shares a file

In a cell, tokens are in one file exactly if their paths have one scope.  The scope of a path is the
component that it belongs to, and there is only one such component, or else the word `semantic`
(`scope_eq_scope_iff`).  A component may have that word for a name, and then its tokens share a file
with those that belong to no component; no others are ever mixed (`same_file_of_create`).
-/

namespace DesignTokens.Pipeline

variable {p : Pipeline} {tokens : TokenSet} {file : TokenFile} {token other : Token}
  {path component : String}

/-! ## Components -/

/-- A path belongs to a component: behind the prefix stands the name of the component, which has no
slash in it, then a slash and whatever else. -/
def BelongsTo (p : Pipeline) (path component : String) : Prop :=
  '/' ∉ component.toList ∧
    ∃ rest, path = p.options.componentPrefix ++ component ++ "/" ++ rest

/-- A path belongs to no component. -/
def Stray (p : Pipeline) (path : String) : Prop := ∀ component, ¬ p.BelongsTo path component

/-- The component that a path belongs to. -/
def component? (p : Pipeline) (path : String) : Option String :=
  (Text.dropStart? path p.options.componentPrefix).bind Text.firstOfMany?

theorem component?_eq_some_iff :
    p.component? path = some component ↔ p.BelongsTo path component := by
  rw [component?, Option.bind_eq_some_iff]
  simp only [Text.dropStart?_eq_some_iff, Text.firstOfMany?_eq_some_iff]
  constructor
  · rintro ⟨_, rfl, hname, rest, rfl⟩
    exact ⟨hname, rest, by simp only [String.append_assoc]⟩
  · rintro ⟨hname, rest, rfl⟩
    exact ⟨_, by simp only [String.append_assoc], hname, rest, rfl⟩

theorem component?_eq_none_iff : p.component? path = none ↔ p.Stray path := by
  rw [Option.eq_none_iff_forall_ne_some]
  exact forall_congr' fun component => not_congr component?_eq_some_iff

theorem scope_eq (hscoped : p.options.componentPrefix ≠ "") (path : String) :
    p.scope path = (p.component? path).getD "semantic" := by
  have hempty : ¬ p.options.componentPrefix.isEmpty = true := mt String.isEmpty_iff.mp hscoped
  rw [scope]
  simp only [if_neg hempty]
  rfl

/-- Two paths have one scope if they belong to one component or both to none, or else if one of them
belongs to none and the component of the other has the name for that. -/
theorem scope_eq_scope_iff (hscoped : p.options.componentPrefix ≠ "") (path other : String) :
    p.scope path = p.scope other ↔
      (∃ component, p.BelongsTo path component ∧ p.BelongsTo other component) ∨
      p.Stray path ∧ p.Stray other ∨
      p.BelongsTo path "semantic" ∧ p.Stray other ∨
      p.Stray path ∧ p.BelongsTo other "semantic" := by
  rw [scope_eq hscoped, scope_eq hscoped]
  simp only [← component?_eq_none_iff, ← component?_eq_some_iff]
  cases p.component? path with
  | none => cases p.component? other <;> simp [eq_comm]
  | some component => cases p.component? other <;> simp [eq_comm]

/-! ## Files of cells -/

/-- Outside of primitive collections each file has the scope of its tokens. -/
theorem IsLaidOut.scope_eq {sized colored : List Cell} (laid : p.IsLaidOut sized colored tokens)
    (hfile : file ∈ tokens.files) (hkey : file.key ≠ {}) (htoken : token ∈ file.tokens) :
    file.scope = p.scope token.path := by
  have hcell : ∀ (select : Variable → Bool) (cells : List Cell),
      file ∈ cells.flatMap (fun cell => (p.filesIn select cell).value) →
        file.scope = p.scope token.path := by
    intro select cells hmem
    obtain ⟨cell, -, hmem⟩ := List.mem_flatMap.mp hmem
    rw [(sorts_filesIn select cell).tokens_eq file hmem] at htoken
    obtain ⟨v, hv, rfl⟩ := List.mem_map.mp htoken
    exact (beq_iff_eq.mp (List.mem_filter.mp hv).2).symm
  rw [laid.files_eq, List.mem_append, List.mem_append] at hfile
  rcases hfile with (hprimitive | hsized) | hcolored
  · exact absurd (forall_mem_primitiveFiles file hprimitive).1 hkey
  · exact hcell _ _ hsized
  · exact hcell _ _ hcolored

theorem HandsOver.scope_eq (handed : p.HandsOver tokens) (hfile : file ∈ tokens.files)
    (hkey : file.key ≠ {}) (htoken : token ∈ file.tokens) :
    file.scope = p.scope token.path := by
  rcases handed with ⟨built, hbuilt, rfl⟩ | ⟨output, ran, rfl⟩
  · obtain ⟨sized, colored, laid⟩ := isLaidOut_of_tokens hbuilt
    exact laid.scope_eq hfile hkey htoken
  · obtain ⟨sized, colored, base, laid, htokens, -⟩ := exists_isLaidOut ran
    rw [htokens] at hfile
    obtain ⟨old, hold, rfl⟩ := List.mem_map.mp hfile
    rw [TokenSet.attached_key] at hkey
    obtain ⟨bare, hbare, heq, -⟩ := TokenSet.exists_of_mem_attached htoken
    have hpath : token.path = bare.path := by rw [heq]
    rw [TokenSet.attached_scope, hpath]
    exact laid.scope_eq hold hkey hbare

/-- Tokens of one cell share a file exactly if their paths have one scope. -/
theorem HandsOver.same_file_iff (handed : p.HandsOver tokens) (valid : p.config.Valid)
    {key : CellKey} (hkey : key ≠ {})
    (htoken : token ∈ (tokens.filesOf key).flatMap TokenFile.tokens)
    (hother : other ∈ (tokens.filesOf key).flatMap TokenFile.tokens) :
    (∃ file ∈ tokens.filesOf key, token ∈ file.tokens ∧ other ∈ file.tokens) ↔
      p.scope token.path = p.scope other.path := by
  have hmem : ∀ file ∈ tokens.filesOf key, file ∈ tokens.files ∧ file.key = key := by
    intro file hfile
    simpa [TokenSet.filesOf] using hfile
  have hscope : ∀ file ∈ tokens.filesOf key, ∀ token ∈ file.tokens,
      file.scope = p.scope token.path := by
    intro file hfile token hheld
    obtain ⟨hlisted, rfl⟩ := hmem file hfile
    exact handed.scope_eq hlisted hkey hheld
  constructor
  · rintro ⟨file, hfile, htoken, hother⟩
    rw [← hscope file hfile token htoken, hscope file hfile other hother]
  · intro heq
    obtain ⟨file, hfile, hheld⟩ := List.mem_flatMap.mp htoken
    obtain ⟨file', hfile', hheld'⟩ := List.mem_flatMap.mp hother
    rw [← hscope file hfile token hheld, ← hscope file' hfile' other hheld'] at heq
    -- the two files have one address, and only one file of a cell is found there
    obtain ⟨others, filed⟩ := handed.exists_filed valid
    obtain ⟨hlisted, rfl⟩ := hmem file hfile
    obtain ⟨hlisted', hkey'⟩ := hmem file' hfile'
    have hfound := filed.file?_eq_some hlisted hkey
    have hfound' := filed.file?_eq_some hlisted' (hkey' ▸ hkey)
    rw [hkey', ← heq, hfound] at hfound'
    obtain rfl := Option.some.inj hfound'
    exact ⟨file, hfile, hheld, hheld'⟩

/-- **Who shares a file.**  In every token set that a pipeline with a component prefix hands over,
two tokens of one cell are in the same file exactly if their paths belong to the same component or
both to none, or else if one path belongs to no component and the other to a component that is named
`semantic`.  So in a cell without a component of that name, a file is one component or all that
belongs to none. -/
theorem same_file_of_create {source : Export} {config : Configuration} {options : Options}
    (created : create source config options = .ok p) (hscoped : options.componentPrefix ≠ "") :
    (∃ tokens, p.HandsOver tokens) ∧ ∀ tokens, p.HandsOver tokens → ∀ key ≠ ({} : CellKey),
      ∀ token ∈ (tokens.filesOf key).flatMap TokenFile.tokens,
      ∀ other ∈ (tokens.filesOf key).flatMap TokenFile.tokens,
        ((∃ file ∈ tokens.filesOf key, token ∈ file.tokens ∧ other ∈ file.tokens) ↔
          (∃ component, p.BelongsTo token.path component ∧ p.BelongsTo other.path component) ∨
          p.Stray token.path ∧ p.Stray other.path ∨
          p.BelongsTo token.path "semantic" ∧ p.Stray other.path ∨
          p.Stray token.path ∧ p.BelongsTo other.path "semantic") ∧
        (¬ p.BelongsTo token.path "semantic" → ¬ p.BelongsTo other.path "semantic" →
          ((∃ file ∈ tokens.filesOf key, token ∈ file.tokens ∧ other ∈ file.tokens) ↔
            (∃ component, p.BelongsTo token.path component ∧ p.BelongsTo other.path component) ∨
            p.Stray token.path ∧ p.Stray other.path)) := by
  obtain ⟨valid, hgraph, rfl, rfl⟩ := create_eq_ok_iff.mp created
  obtain ⟨built, hbuilt⟩ := p.exists_tokens_eq_ok
  refine ⟨⟨_, .inl ⟨built, hbuilt, rfl⟩⟩, ?_⟩
  intro tokens handed key hkey token htoken other hother
  -- tokens share a file exactly if their scopes are one word
  have hshared := (handed.same_file_iff valid hkey htoken
    hother).trans (scope_eq_scope_iff hscoped token.path other.path)
  refine ⟨hshared, fun hleft hright => hshared.trans ?_⟩
  simp only [hleft, hright, false_and, and_false, or_false]

end DesignTokens.Pipeline

/-! ## A component named `semantic` -/

namespace DesignTokens.Sample

def panelSource : Export where
  collections := [sizes, breakpoints, widgets].map fun c => ⟨c.id, c.name, c.modes⟩
  nodes :=
    [widget "Component/Button/height", sixteen, body, widget "Component/semantic/height",
      widget "Component/Button/padding", widget "Component/stray"]

def panels : Pipeline where
  graph := ⟨.ofList [sizes, breakpoints, widgets], .ofList panelSource.nodes, [], []⟩
  config := { brands := [{ name := "core" }], breakpoints := [⟨"small", ⟨"sm"⟩⟩] }
  options := {}

def panelTokens : Logged TokenSet := panels.tokens.toOption.getD ⟨{}, []⟩

theorem create_panels : Pipeline.create panelSource panels.config {} = .ok panels :=
  Pipeline.create_eq_ok_iff.mpr
    ⟨Configuration.validate_eq_ok_iff.mp (by decide +kernel), by decide +kernel, rfl, rfl⟩

theorem handsOver_panelTokens : panels.HandsOver panelTokens.value :=
  .inl ⟨panelTokens, Except.eq_ok_of_isOk (by decide), rfl⟩

def panelKey : CellKey := .ofBrandBreakpoint "core" "small"

/-- The token of a variable in the only cell. -/
def panelToken (v : Variable) : Token :=
  (panels.token { brandName := some "core", breakpoint := some ⟨"sm"⟩ } v).value

/-- The tokens of the button are in one file, and `Text/body` is in another. -/
theorem same_file_of_panels :
    Pipeline.create panelSource panels.config {} = .ok panels ∧
      panels.HandsOver panelTokens.value ∧
      (∃ file ∈ panelTokens.value.filesOf panelKey,
        panelToken (widget "Component/Button/height") ∈ file.tokens ∧
        panelToken (widget "Component/Button/padding") ∈ file.tokens) ∧
      ¬ ∃ file ∈ panelTokens.value.filesOf panelKey,
        panelToken (widget "Component/Button/height") ∈ file.tokens ∧
        panelToken body ∈ file.tokens := by
  obtain ⟨-, hshared⟩ := Pipeline.same_file_of_create create_panels (by decide)
  have hshared := hshared panelTokens.value handsOver_panelTokens panelKey (by decide)
    (panelToken (widget "Component/Button/height")) (by decide +kernel)
  have hheight : panels.BelongsTo "Component/Button/height" "Button" :=
    ⟨by decide, "height", by decide⟩
  have hpadding : panels.BelongsTo "Component/Button/padding" "Button" :=
    ⟨by decide, "padding", by decide⟩
  have hbody : panels.Stray "Text/body" := Pipeline.component?_eq_none_iff.mp (by decide)
  refine ⟨create_panels, handsOver_panelTokens, ?_, ?_⟩
  · exact (hshared (panelToken (widget "Component/Button/padding"))
      (by decide +kernel)).1.mpr (.inl ⟨"Button", hheight, hpadding⟩)
  · intro hmixed
    have hplain : ¬ panels.BelongsTo "Component/Button/height" "semantic" :=
      mt Pipeline.component?_eq_some_iff.mpr (by decide)
    rcases ((hshared (panelToken body) (by decide +kernel)).2 hplain (hbody "semantic")).mp hmixed
      with ⟨component, -, hmember⟩ | ⟨hstray, -⟩
    · exact hbody component hmember
    · exact hstray "Button" hheight

/-- `Text/body` belongs to no component and shares a file with what belongs to one. -/
theorem file_mixed_of_panels :
    Pipeline.create panelSource panels.config {} = .ok panels ∧
      panels.options.componentPrefix ≠ "" ∧ panels.HandsOver panelTokens.value ∧
      panels.Stray (panelToken body).path ∧
      panels.BelongsTo (panelToken (widget "Component/semantic/height")).path "semantic" ∧
      ∃ file ∈ panelTokens.value.filesOf panelKey, panelToken body ∈ file.tokens ∧
        panelToken (widget "Component/semantic/height") ∈ file.tokens :=
  ⟨create_panels, by decide, handsOver_panelTokens,
    Pipeline.component?_eq_none_iff.mp (by decide +kernel),
    ⟨by decide, "height", by decide +kernel⟩, by decide +kernel⟩

end DesignTokens.Sample
