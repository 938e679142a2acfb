import DesignTokens.Proofs.Graph.Circles
import DesignTokens.Proofs.Pipeline.Layout
import DesignTokens.Proofs.Pipeline.Typography

/-!
# Inherited ratios

A composite knows its line height by the binding or, if that comes to no number, by the literal of
the text style.  Its ratio goes to all line heights whose chain has the bound variable, so it had
better be a ratio of the length that these come to.  It is, and the reason lies in the chain: a
token with a number shares it with every variable of its chain (`float?_value_of_mem_chain`), so
the binding to one of them cannot have failed.
-/

namespace DesignTokens.Pipeline

variable {p : Pipeline} {sized colored : List Cell} {tokens : TokenSet} {options : RatioOptions}
  {file : TokenFile} {token : Token}

/-! ## Tokens with ratios and where they come from -/

/-- A token of a file with ratios is the one of a variable, apart from its ratio, and that is the
one it is assigned. -/
theorem IsLaidOut.exists_variable_of_mem_attached (laid : p.IsLaidOut sized colored tokens)
    {context : Context} (hcontext : p.config.context file.key = .ok context)
    (hfile : file ∈ tokens.files) (htoken : token ∈ (tokens.attached options file).tokens) :
    ∃ v ∈ p.graph.nodes,
      token = { (p.token context v).value with lineHeightRatio := token.lineHeightRatio } ∧
        ∀ ratio, token.lineHeightRatio = some ratio →
          Ratio.outcome (.ofCell tokens file.key) options file (p.token context v).value =
            .assigned ratio := by
  obtain ⟨old, hold, hsame, hratio⟩ := TokenSet.exists_of_mem_attached htoken
  obtain ⟨context', hcontext', htokens⟩ := laid.exists_context_of_mem_files hfile
  obtain rfl := Except.ok_unique hcontext hcontext'
  obtain ⟨v, hv, rfl⟩ := htokens old hold
  refine ⟨v, hv, hsame, ?_⟩
  intro ratio hsome
  rcases hratio ratio hsome with hbefore | hassigned
  · cases hbefore
  · exact hassigned

/-- A number that a token comes to is the one that each variable of its chain comes to. -/
theorem float?_value_of_mem_chain {context : Context} {v : Variable} {id : VariableId}
    {height : Binary64} (hheight : (p.token context v).value.value.float? = some height)
    (hid : id ∈ (p.token context v).value.chain) :
    (p.graph.value context id).value.float? = some height := by
  have hvalue : (p.graph.value context id).value = (p.token context v).value.value :=
    Graph.value_resolve_eq_of_mem_chain hid
  rw [hvalue]
  exact hheight

/-! ## The composites that give their ratios -/

/-- Where a variable comes to a number, that is the line height of each composite that is bound to
it. -/
theorem IsLaidOut.lineHeight_eq_of_boundTo? (laid : p.IsLaidOut sized colored tokens)
    {composite : TypographyToken} (hcomposite : composite ∈ tokens.typography) {context : Context}
    (hcontext : p.config.context composite.key = .ok context) {id : VariableId}
    (hbound : composite.typography.lineHeight.boundTo? = some id) {height : Binary64}
    (hvalue : (p.graph.value context id).value.float? = some height) :
    composite.typography.lineHeight.value = some height := by
  obtain ⟨context', hcontext', style, -, hstyle⟩ :=
    laid.exists_context_of_mem_typography hcomposite
  obtain rfl := Except.ok_unique hcontext hcontext'
  obtain ⟨literal, hline⟩ := lineHeight_value_eq (hstyle ▸ hbound)
  rw [hstyle, hline, hvalue, Option.some_or]

/-- Behind a ratio by identity there is a composite whose binding holds. -/
theorem IsLaidOut.exists_composite_of_identity (laid : p.IsLaidOut sized colored tokens)
    {context : Context} (hcontext : p.config.context file.key = .ok context)
    (hfile : file ∈ tokens.files) (htoken : token ∈ (tokens.attached options file).tokens)
    {ratio : Binary64} (hratio : token.lineHeightRatio = some ⟨ratio, .identity⟩) :
    ∃ composite ∈ tokens.typography, composite.key = file.key ∧
      ∃ id ∈ token.chain, ∃ height,
        composite.typography.lineHeight.boundTo? = some id ∧
          (p.graph.value context id).value.float? = some height ∧
            composite.typography.lineHeight.value = some height ∧
              token.value.float? = some height ∧ composite.typography.ratio? = some ratio := by
  obtain ⟨v, -, hsame, hassigned⟩ := laid.exists_variable_of_mem_attached hcontext hfile htoken
  obtain ⟨composite, hmem, id, hid, height, hheight, hbound, hown⟩ :=
    Ratio.exists_composite_of_assigned (hassigned _ hratio)
  obtain ⟨hcomposite, hkey⟩ := List.mem_filter.mp hmem
  have hkey : composite.key = file.key := by simpa using hkey
  have hvalue := float?_value_of_mem_chain hheight hid
  -- the composite is made in the context of the token, because their cell is the same
  have hline := laid.lineHeight_eq_of_boundTo? hcomposite (hkey ▸ hcontext) hbound hvalue
  rw [hsame]
  exact ⟨composite, hcomposite, hkey, id, hid, height, hbound, hvalue, hline, hheight, hown⟩

/-- Where a variable comes to no number, no token with it in its chain has a ratio. -/
theorem IsLaidOut.lineHeightRatio_eq_none (laid : p.IsLaidOut sized colored tokens)
    {context : Context} (hcontext : p.config.context file.key = .ok context)
    (hfile : file ∈ tokens.files) (htoken : token ∈ (tokens.attached options file).tokens)
    {id : VariableId} (hid : id ∈ token.chain)
    (hbroken : (p.graph.value context id).value.float? = none) :
    token.lineHeightRatio = none := by
  obtain ⟨v, -, hsame, hassigned⟩ := laid.exists_variable_of_mem_attached hcontext hfile htoken
  cases hratio : token.lineHeightRatio with
  | none => rfl
  | some ratio =>
      -- a token with a ratio has a number, and so would the variable
      obtain ⟨-, -, height, hheight, -⟩ := Ratio.outcome_eq_assigned_iff.mp (hassigned ratio hratio)
      rw [hsame] at hid
      rw [float?_value_of_mem_chain hheight hid] at hbroken
      cases hbroken

/-- **Inherited ratios are true of the tokens that inherit them.**  In the output of a run, behind a
ratio by identity there is a composite of the same cell, bound to a variable of the token's chain,
whose line height is the number that the token has and whose ratio is the one attached.  The number
is what the bound variable comes to.  So a composite whose binding comes to no number and whose line
height is the literal of its style gives its ratio to no token: those with the variable in their
chains are left without any.  (Such a length still counts where line heights are compared by value,
which is no inheritance.) -/
theorem identity_ratio_of_run {output : Output} (ran : p.run = .ok output) :
    (∀ file ∈ output.tokens.files, ∀ token ∈ file.tokens, ∀ ratio,
      token.lineHeightRatio = some ⟨ratio, .identity⟩ →
        ∃ composite ∈ output.tokens.typography, composite.key = file.key ∧
          ∃ context, p.config.context file.key = .ok context ∧ ∃ id ∈ token.chain, ∃ height,
            composite.typography.lineHeight.boundTo? = some id ∧
              (p.graph.value context id).value.float? = some height ∧
                composite.typography.lineHeight.value = some height ∧
                  token.value.float? = some height ∧
                    composite.typography.ratio? = some ratio) ∧
      ∀ composite ∈ output.tokens.typography, ∀ id context,
        composite.typography.lineHeight.boundTo? = some id →
          p.config.context composite.key = .ok context →
            (p.graph.value context id).value.float? = none →
              ∀ file ∈ output.tokens.files, file.key = composite.key →
                ∀ token ∈ file.tokens, id ∈ token.chain → token.lineHeightRatio = none := by
  obtain ⟨sized, colored, tokens, laid, htokens, -⟩ := exists_isLaidOut ran
  rw [htokens]
  constructor
  · intro file hfile token htoken ratio hratio
    -- the file is one that was built, with the ratios attached to it
    obtain ⟨base, hbase, rfl⟩ := List.mem_map.mp hfile
    obtain ⟨context, hcontext, -⟩ := laid.exists_context_of_mem_files hbase
    obtain ⟨composite, hmem, hkey, hdonor⟩ :=
      laid.exists_composite_of_identity hcontext hbase htoken hratio
    rw [TokenSet.attached_key]
    exact ⟨composite, hmem, hkey, context, hcontext, hdonor⟩
  · intro composite _ id context _ hcontext hbroken file hfile hkey token htoken hid
    obtain ⟨base, hbase, rfl⟩ := List.mem_map.mp hfile
    rw [TokenSet.attached_key] at hkey
    exact laid.lineHeightRatio_eq_none (hkey ▸ hcontext) hbase htoken hid hbroken

/-- The body line height inherits one and a half from the body style.  The note style has a ratio
too, but the variable that it is bound to comes to no number. -/
theorem identity_ratio_of_typesetting :
    Sample.typesetting.run = .ok Sample.typeset ∧
      (∃ file ∈ Sample.typeset.tokens.files, ∃ token ∈ file.tokens,
        token.lineHeightRatio = some ⟨3 / 2, .identity⟩ ∧
          ∃ composite ∈ Sample.typeset.tokens.typography, composite.key = file.key ∧
            composite.typography.lineHeight.value = token.value.float? ∧
              composite.typography.ratio? = some (3 / 2)) ∧
      ∃ composite ∈ Sample.typeset.tokens.typography,
        composite.typography.ratio? = some (12 / 5) ∧
          composite.typography.lineHeight.boundTo? = some Sample.noteLineHeight.id ∧
            ∀ file ∈ Sample.typeset.tokens.files, file.key = composite.key →
              ∀ token ∈ file.tokens, Sample.noteLineHeight.id ∈ token.chain →
                token.lineHeightRatio = none := by
  have hrun := identity_ratio_of_run Sample.run_typesetting
  refine ⟨Sample.run_typesetting, ?_, ?_⟩
  · have hinherits : ∃ file ∈ Sample.typeset.tokens.files, ∃ token ∈ file.tokens,
        token.lineHeightRatio = some ⟨3 / 2, .identity⟩ := by decide +kernel
    obtain ⟨file, hfile, token, htoken, hratio⟩ := hinherits
    obtain ⟨composite, hmem, hkey, context, -, id, -, height, -, -, hline, hheight, hown⟩ :=
      hrun.1 file hfile token htoken _ hratio
    exact ⟨file, hfile, token, htoken, hratio, composite, hmem, hkey, by rw [hline, hheight], hown⟩
  · have hbroken : ∃ composite ∈ Sample.typeset.tokens.typography,
        composite.typography.ratio? = some (12 / 5) ∧
          composite.typography.lineHeight.boundTo? = some Sample.noteLineHeight.id ∧
            composite.key = .ofBrandBreakpoint "core" "small" := by decide +kernel
    obtain ⟨composite, hmem, hratio, hbound, hkey⟩ := hbroken
    have hcontext : Sample.typesetting.config.context composite.key =
        .ok { brandName := some "core", breakpoint := some ⟨"sm"⟩ } := by
      rw [hkey]
      rfl
    exact ⟨composite, hmem, hratio, hbound,
      hrun.2 composite hmem _ _ hbound hcontext (by decide +kernel)⟩

end DesignTokens.Pipeline
