import DesignTokens.Proofs.Ratio.Identity
import DesignTokens.Proofs.Ratio.Origin
import DesignTokens.Proofs.Ratio.Repetition

/-!
# A ratio in dispute does not come back by value

If the composites that are bound to a variable do not agree on a ratio, the variable has none, and a
line height with it in its chain must look elsewhere.  It could come upon the same ratios again,
because line heights are also compared by value.  But the composites that are bound to the variable
all have the length that the line height has, so they are among those that are compared, and where a
part does not agree the whole does not.
-/

namespace DesignTokens

/-- A file with its ratios has the same siblings. -/
theorem Sibling.ratio?_attached (tokens : TokenSet) (options : RatioOptions) (file : TokenFile)
    (token : Token) (height : Binary64) :
    ratio? (tokens.attached options file) token height = ratio? file token height := by
  rw [← ratio?_withoutRatios, TokenSet.withoutRatios_attached, ratio?_withoutRatios]

/-! ## Disputes -/

/-- If one function gives all results that another one gives, it gives them in the same order. -/
theorem filterMap_sublist_filterMap {α β : Type} {f g : α → Option β} {items : List α}
    (h : ∀ item ∈ items, ∀ b, f item = some b → g item = some b) :
    (items.filterMap f).Sublist (items.filterMap g) := by
  induction items with
  | nil => exact .slnil
  | cons item rest ih =>
      obtain ⟨hitem, hrest⟩ := List.forall_mem_cons.mp h
      cases hf : f item with
      | none =>
          rw [List.filterMap_cons_none hf]
          cases hg : g item with
          | none =>
              rw [List.filterMap_cons_none hg]
              exact ih hrest
          | some b =>
              rw [List.filterMap_cons_some hg]
              exact (ih hrest).cons b
      | some b =>
          rw [List.filterMap_cons_some hf, List.filterMap_cons_some (hitem b hf)]
          exact (ih hrest).cons_cons b

namespace RatioIndex

variable {tokens : TokenSet} {key : CellKey} {id : VariableId} {height : Binary64}

/-- A variable in dispute has no ratio. -/
theorem ratioOf?_eq_none_of_disputed
    (h : ∃ dispute ∈ (ofCell tokens key).disputes, dispute.id = id) :
    (ofCell tokens key).ratioOf? id = none := by
  rw [ratioOf?_ofCell]
  exact (exists_dispute_iff.mp h).2

/-- If all composites that are bound to a variable in dispute have one line height, there is no
ratio for this line height. -/
theorem ratioOfValue?_eq_none_of_disputed
    (h : ∃ dispute ∈ (ofCell tokens key).disputes, dispute.id = id)
    (hheight : ∀ composite ∈ tokens.compositesOf key,
      composite.typography.lineHeight.boundTo? = some id →
        composite.typography.lineHeight.value = some height) :
    (ofCell tokens key).ratioOfValue? height = none := by
  obtain ⟨hratios, hnone⟩ := exists_dispute_iff.mp h
  rw [ratioOfValue?_ofCell]
  refine agreed?_eq_none_of_sublist (filterMap_sublist_filterMap ?_) hratios hnone
  intro composite hmem ratio hgives
  unfold ratioFor? at hgives
  split at hgives
  · next hbound =>
    rw [ratioAt?, hheight composite hmem hbound]
    simpa using hgives
  · cases hgives

end RatioIndex

namespace Pipeline

variable {p : Pipeline}

/-- **A ratio in dispute does not come back by value.**  If the report on a run lists a conflict, a
token of the same cell with the variable in its chain has no ratio by value.  If it has one, it is
that of a composite which is bound to another variable of the chain, or it goes by the font size
beside the token. -/
theorem source_ne_valuePattern_of_conflict {output : Output} (ran : p.run = .ok output) :
    ∀ conflict ∈ output.ratios.conflicts, ∀ file ∈ output.tokens.files, file.key = conflict.key →
      ∀ token ∈ file.tokens, conflict.id ∈ token.chain → ∀ ratio,
        token.lineHeightRatio = some ratio → ratio.source ≠ .valuePattern ∧
          ((ratio.source = .identity ∧ ∃ id ∈ token.chain, id ≠ conflict.id ∧
            ∃ composite ∈ output.tokens.typography, composite.key = conflict.key ∧
              composite.typography.lineHeight.boundTo? = some id ∧
                composite.typography.ratio? = some ratio.ratio) ∨
          (ratio.source = .namePattern ∧ ∃ height, token.value.float? = some height ∧
            Sibling.ratio? file token height = some ratio.ratio)) := by
  obtain ⟨sized, colored, tokens, laid, htokens, hreport⟩ := exists_isLaidOut ran
  rw [htokens, hreport]
  intro conflict hconflict file hfile hkey token htoken hchain ratio hratio
  obtain ⟨base, hbase, rfl⟩ := List.mem_map.mp hfile
  rw [TokenSet.attached_key] at hkey
  -- the conflict is a dispute of the index by which the file has its ratios
  obtain ⟨-, hdisputed⟩ := TokenSet.exists_conflict_iff.mp ⟨conflict, hconflict, hkey.symm, rfl⟩
  obtain ⟨context, hcontext, -⟩ := laid.exists_context_of_mem_files hbase
  obtain ⟨v, -, hsame, hassigned⟩ := laid.exists_variable_of_mem_attached hcontext hbase htoken
  have houtcome := hassigned ratio hratio
  obtain ⟨-, -, height, hheight, hfound⟩ := Ratio.outcome_eq_assigned_iff.mp houtcome
  rw [hsame] at hchain ⊢
  have hcase := Ratio.ratio?_eq_some_iff.mp hfound
  obtain ⟨ratio, source⟩ := ratio
  cases source with
  | identity =>
      obtain ⟨id, hid, hown⟩ := List.exists_of_findSome?_eq_some hcase
      obtain ⟨composite, hmem, hbound, hgives⟩ := RatioIndex.exists_composite_of_ratioOf? hown
      obtain ⟨hcomposite, hcell⟩ := List.mem_filter.mp hmem
      have hother : id ≠ conflict.id := by
        rintro rfl
        rw [RatioIndex.ratioOf?_eq_none_of_disputed hdisputed] at hown
        cases hown
      exact ⟨nofun, .inl ⟨rfl, id, hid, hother, composite, hcomposite,
        (beq_iff_eq.mp hcell).trans hkey, hbound, hgives⟩⟩
  | namePattern =>
      refine ⟨nofun, .inr ⟨rfl, height, hheight, ?_⟩⟩
      rw [Sibling.ratio?_attached]
      exact hcase.2
  | valuePattern =>
      -- the variable comes to the same number, and so do all composites that are bound to it
      have hvalue := float?_value_of_mem_chain hheight hchain
      have hnone : (RatioIndex.ofCell tokens base.key).ratioOfValue? height = none := by
        apply RatioIndex.ratioOfValue?_eq_none_of_disputed hdisputed
        intro composite hmem hbound
        obtain ⟨hcomposite, hcell⟩ := List.mem_filter.mp hmem
        rw [← beq_iff_eq.mp hcell] at hcontext
        exact laid.lineHeight_eq_of_boundTo? hcomposite hcontext hbound hvalue
      rw [hnone] at hcase
      cases hcase.2.2.2

end Pipeline

/-! ## A line height beside its font size -/

namespace Sample

def bodyFontSize : Variable :=
  ⟨⟨"bodyFontSize"⟩, "Text/bodyFontSize", breakpoints.id, .float,
    Table.empty.insert ⟨"sm"⟩ (.literal (.number 16))⟩

/-- A style with the line height of the body and another font size. -/
def leadStyle : TextStyle where
  id := "lead"
  name := "Lead"
  fontSize := some 20
  bindings := { lineHeight := some leading.id }

def quarrel : Pipeline where
  graph :=
    { collectionIndex := .ofList [sizes, breakpoints]
      nodeIndex := .ofList [leading, bodyLineHeight, bodyFontSize]
      textStyles := [bodyStyle, leadStyle]
      effectStyles := [] }
  config := typesetting.config
  options := {}

def quarrelled : Output := quarrel.run.toOption.getD {}

theorem run_quarrel : quarrel.run = .ok quarrelled := Except.eq_ok_of_isOk (by decide)

/-- The two styles do not agree about the leading, so the body line height goes by its font size. -/
theorem source_of_quarrel :
    quarrel.run = .ok quarrelled ∧
      ∃ conflict ∈ quarrelled.ratios.conflicts, ∃ file ∈ quarrelled.tokens.files,
        file.key = conflict.key ∧ ∃ token ∈ file.tokens, conflict.id ∈ token.chain ∧
          token.lineHeightRatio = some ⟨3 / 2, .namePattern⟩ ∧
            Sibling.ratio? file token 24 = some (3 / 2) := by
  have hfound : ∃ conflict ∈ quarrelled.ratios.conflicts, ∃ file ∈ quarrelled.tokens.files,
      file.key = conflict.key ∧ ∃ token ∈ file.tokens, conflict.id ∈ token.chain ∧
        token.lineHeightRatio = some ⟨3 / 2, .namePattern⟩ ∧ token.value.float? = some 24 := by
    decide +kernel
  obtain ⟨conflict, hconflict, file, hfile, hkey, token, htoken, hchain, hratio, hvalue⟩ := hfound
  obtain ⟨-, hsource | hsource⟩ := Pipeline.source_ne_valuePattern_of_conflict run_quarrel
    conflict hconflict file hfile hkey token htoken hchain _ hratio
  · cases hsource.1
  · obtain ⟨-, height, hheight, hsibling⟩ := hsource
    obtain rfl : (24 : Binary64) = height := Option.some.inj (hvalue.symm.trans hheight)
    exact ⟨run_quarrel, conflict, hconflict, file, hfile, hkey, token, htoken, hchain, hratio,
      hsibling⟩

end Sample

end DesignTokens
