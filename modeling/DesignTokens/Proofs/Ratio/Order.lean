import DesignTokens.Proofs.Ratio.Attachment
import DesignTokens.Proofs.Ratio.Origin

/-!
# Ratios do not depend on the order of the composites

Two token sets with the same files and the same composites in another order (`TokenSet.Reordered`)
are given the same ratios.  The indices of a cell differ: of numerically equal ratios another one
may stand for all, and disputes come in another order with their ratios.  But a variable has a ratio
in the one index exactly if it has one in the other, and these are the same number, because both are
what the same ratios have in common; and with line heights it is the same.  So each token has the
same outcome up to the representation of its ratio, and a report mentions no ratio but in disputes.
-/

namespace DesignTokens

/-! ## The same up to the representation of ratios -/

/-- The same ratio, by the same reasoning. -/
structure LineHeightRatio.Same (ratio other : LineHeightRatio) : Prop where
  number : ratio.ratio.Same other.ratio
  source : ratio.source = other.source

/-- The same token, with the same ratio if any. -/
structure Token.Same (token other : Token) : Prop where
  eq : other = { token with lineHeightRatio := other.lineHeightRatio }
  ratio : Option.Rel LineHeightRatio.Same token.lineHeightRatio other.lineHeightRatio

/-- The same file, token by token. -/
structure TokenFile.Same (file other : TokenFile) : Prop where
  key : file.key = other.key
  scope : file.scope = other.scope
  tokens : List.Forall₂ Token.Same file.tokens other.tokens

/-- The same outcome, with the same ratio if any. -/
inductive Outcome.Same : Outcome → Outcome → Prop
  | untouched : Same .untouched .untouched
  | symbolic : Same .symbolic .symbolic
  | assigned {ratio other : LineHeightRatio} (same : ratio.Same other) :
      Same (.assigned ratio) (.assigned other)
  | unmatched : Same .unmatched .unmatched

theorem LineHeightRatio.Same.refl (ratio : LineHeightRatio) : ratio.Same ratio :=
  ⟨.inl rfl, rfl⟩

theorem Token.Same.refl (token : Token) : token.Same token := by
  refine ⟨rfl, ?_⟩
  cases token.lineHeightRatio with
  | none => exact .none
  | some ratio => exact .some (.refl ratio)

theorem TokenFile.Same.refl (file : TokenFile) : file.Same file :=
  ⟨rfl, rfl, List.forall₂_same.mpr fun token _ => .refl token⟩

/-- Related functions find related results. -/
theorem rel_findSome? {α β : Type} {R : β → β → Prop} {f g : α → Option β}
    (h : ∀ item, Option.Rel R (f item) (g item)) (items : List α) :
    Option.Rel R (items.findSome? f) (items.findSome? g) := by
  induction items with
  | nil => exact .none
  | cons item rest ih =>
      have hitem := h item
      rw [List.findSome?_cons, List.findSome?_cons]
      generalize f item = x at hitem
      generalize g item = y at hitem
      cases hitem with
      | none => exact ih
      | some hrel => exact .some hrel

/-! ## Indices -/

/-- Two indices have the same ratios for variables and for line heights. -/
structure RatioIndex.Same (index other : RatioIndex) : Prop where
  ratioOf? : ∀ id, Option.Rel Binary64.Same (index.ratioOf? id) (other.ratioOf? id)
  ratioOfValue? : ∀ height,
    Option.Rel Binary64.Same (index.ratioOfValue? height) (other.ratioOfValue? height)

namespace Ratio

variable {index other : RatioIndex}

private theorem same_ratio? (same : index.Same other) (options : RatioOptions) (file : TokenFile)
    (token : Token) (height : Binary64) :
    Option.Rel LineHeightRatio.Same (ratio? index options file token height)
      (ratio? other options file token height) := by
  have hidentity : Option.Rel Binary64.Same (identityRatio? index token)
      (identityRatio? other token) := rel_findSome? same.ratioOf? token.chain
  have hvalue := same.ratioOfValue? height
  unfold ratio?
  generalize identityRatio? index token = x at hidentity
  generalize identityRatio? other token = y at hidentity
  -- sources are asked in order; that of the name does not look at the index
  cases hidentity with
  | some hsame => exact .some ⟨hsame, rfl⟩
  | none =>
      cases Sibling.ratio? file token height with
      | some ratio => exact .some (.refl _)
      | none =>
          by_cases hpattern : options.valuePattern
          · simp only [hpattern, if_true]
            generalize index.ratioOfValue? height = x at hvalue
            generalize other.ratioOfValue? height = y at hvalue
            cases hvalue with
            | none => exact .none
            | some hsame => exact .some ⟨hsame, rfl⟩
          · simp only [hpattern]
            exact .none

theorem same_outcome (same : index.Same other) (options : RatioOptions) (file : TokenFile)
    (token : Token) :
    (outcome index options file token).Same (outcome other options file token) := by
  unfold outcome
  split
  · split
    · exact .symbolic
    · cases token.value.float? with
      | none => exact .unmatched
      | some height =>
          have hratio := same_ratio? same options file token height
          rw [Option.bind_some, Option.bind_some]
          generalize ratio? index options file token height = x at hratio
          generalize ratio? other options file token height = y at hratio
          cases hratio with
          | none => exact .unmatched
          | some hsame => exact .assigned hsame
  · exact .untouched

private theorem same_apply (token : Token) {outcome other : Outcome} (same : outcome.Same other) :
    (apply token outcome).Same (apply token other) := by
  cases same with
  | assigned hsame => exact ⟨rfl, .some hsame⟩
  | untouched => exact .refl token
  | symbolic => exact .refl token
  | unmatched => exact .refl token

private theorem same_attachTo (same : index.Same other) (options : RatioOptions)
    (file : TokenFile) :
    (attachTo index options file).Same (attachTo other options file) where
  key := rfl
  scope := rfl
  tokens := by
    rw [attachTo, attachTo, List.forall₂_map_left_iff, List.forall₂_map_right_iff]
    refine List.forall₂_same.mpr fun token _ => ?_
    exact same_apply token (same_outcome same options file token)

/-- A report on a token tells the reasoning, but not the ratio. -/
theorem reportToken_eq_of_same (file : TokenFile) (token : Token) {outcome other : Outcome}
    (same : outcome.Same other) :
    reportToken file token outcome = reportToken file token other := by
  cases same with
  | assigned hsame => rw [reportToken, hsame.source, reportToken]
  | untouched => rfl
  | symbolic => rfl
  | unmatched => rfl

private theorem value_reportFile_eq_of_same (same : index.Same other) (options : RatioOptions)
    (file : TokenFile) :
    (reportFile index options file).value = (reportFile other options file).value := by
  rw [value_reportFile, value_reportFile]
  congr 1
  refine List.map_congr_left fun token _ => ?_
  rw [reportToken_eq_of_same file token (same_outcome same options file token)]

end Ratio

/-! ## Reports without conflicts -/

namespace RatioReport

/-- A report without its conflicts. -/
def withoutConflicts (report : RatioReport) : RatioReport := { report with conflicts := [] }

theorem withoutConflicts_sum (reports : List RatioReport) :
    (sum reports).withoutConflicts = sum (reports.map withoutConflicts) := by
  have hfold : ∀ start, (reports.foldl append start).withoutConflicts =
      (reports.map withoutConflicts).foldl append start.withoutConflicts := by
    induction reports with
    | nil => exact fun _ => rfl
    | cons report rest ih =>
        intro start
        rw [List.foldl_cons, ih, List.map_cons, List.foldl_cons]
        rfl
  exact hfold {}

/-- What has nothing to report does not count. -/
theorem sum_replicate_append (n : Nat) (reports : List RatioReport) :
    sum (List.replicate n ({} : RatioReport) ++ reports) = sum reports := by
  induction n with
  | zero => rfl
  | succ n ih => exact ih

end RatioReport

/-- Without conflicts the report on a cell is the one on its files. -/
theorem Ratio.withoutConflicts_reportCell (tokens : TokenSet) (options : RatioOptions)
    (key : CellKey) :
    (reportCell tokens options key).value.withoutConflicts =
      .sum ((tokens.filesOf key).map fun file =>
        (reportFile (.ofCell tokens key) options file).value.withoutConflicts) := by
  have hempty : ∀ dispute, (reportDispute key dispute).value.withoutConflicts = {} := fun _ => rfl
  rw [value_reportCell, RatioReport.withoutConflicts_sum, List.map_append, List.map_map,
    List.map_map]
  simp only [Function.comp_def, hempty, List.map_const', RatioReport.sum_replicate_append]

/-! ## Token sets -/

/-- The same files and composites, with the composites in another order. -/
structure TokenSet.Reordered (tokens others : TokenSet) : Prop where
  files_eq : tokens.files = others.files
  typography_perm : tokens.typography.Perm others.typography

namespace TokenSet.Reordered

variable {tokens others : TokenSet} (reordered : tokens.Reordered others)

include reordered

theorem compositesOf_perm (key : CellKey) :
    (tokens.compositesOf key).Perm (others.compositesOf key) :=
  reordered.typography_perm.filter _

private theorem filesOf_eq (key : CellKey) : tokens.filesOf key = others.filesOf key := by
  rw [filesOf, reordered.files_eq, filesOf]

theorem ratioCells_eq : tokens.ratioCells = others.ratioCells := by
  apply Table.keys_eq_of_mem_iff
  intro key
  change key ∈ tokens.ratioCells ↔ key ∈ others.ratioCells
  rw [mem_ratioCells_iff, mem_ratioCells_iff, reordered.files_eq]
  simp only [reordered.typography_perm.mem_iff]

theorem same_ofCell (key : CellKey) :
    (RatioIndex.ofCell tokens key).Same (RatioIndex.ofCell others key) where
  ratioOf? := by
    intro id
    rw [RatioIndex.ratioOf?_ofCell, RatioIndex.ratioOf?_ofCell]
    exact RatioIndex.same_agreed?_of_perm ((reordered.compositesOf_perm key).filterMap _)
  ratioOfValue? := by
    intro height
    rw [RatioIndex.ratioOfValue?_ofCell, RatioIndex.ratioOfValue?_ofCell]
    exact RatioIndex.same_agreed?_of_perm ((reordered.compositesOf_perm key).filterMap _)

theorem exists_dispute_iff (key : CellKey) (id : VariableId) :
    (∃ dispute ∈ (RatioIndex.ofCell tokens key).disputes, dispute.id = id) ↔
      ∃ dispute ∈ (RatioIndex.ofCell others key).disputes, dispute.id = id := by
  rw [RatioIndex.exists_dispute_iff, RatioIndex.exists_dispute_iff]
  exact RatioIndex.at_odds_iff_of_perm ((reordered.compositesOf_perm key).filterMap _)

/-! ### What is handed over -/

variable (options : RatioOptions)

private theorem same_attached (file : TokenFile) :
    (tokens.attached options file).Same (others.attached options file) := by
  unfold attached
  split
  · exact Ratio.same_attachTo (reordered.same_ofCell file.key) options file
  · exact .refl file

/-- All files have the same ratios. -/
theorem same_files : List.Forall₂ TokenFile.Same (tokens.files.map (tokens.attached options))
    (others.files.map (others.attached options)) := by
  rw [← reordered.files_eq, List.forall₂_map_left_iff, List.forall₂_map_right_iff]
  exact List.forall₂_same.mpr fun file _ => reordered.same_attached options file

/-- The reports on a cell differ in the conflicts only. -/
theorem withoutConflicts_reportCell_eq (key : CellKey) :
    (Ratio.reportCell tokens options key).value.withoutConflicts =
      (Ratio.reportCell others options key).value.withoutConflicts := by
  rw [Ratio.withoutConflicts_reportCell, Ratio.withoutConflicts_reportCell,
    reordered.filesOf_eq]
  congr 1
  refine List.map_congr_left fun file _ => ?_
  rw [Ratio.value_reportFile_eq_of_same (reordered.same_ofCell key)]

end TokenSet.Reordered

end DesignTokens
