import DesignTokens.Proofs.Ratio.Accounting
import DesignTokens.Proofs.Text.Path

/-!
# The reasoning behind a ratio

Which ratio a line height is assigned is said by `TokenSet.Reasoned`, with one case for each
reasoning and the condition that no earlier one applies.  It speaks of composites, paths and
positions in a file, and not of the index and the look-ups by which ratios are found:

* composites give a ratio to a variable or to a line height if all that have one have the same
  (`RatioIndex.agreed?_eq_some_iff`);
* a token is the font size beside a line height if the two lowered paths differ in their endings
  only (`Sibling.stem?_eq_some_iff`), and of several ones with a number the last one counts
  (`Sibling.fontSize?_eq_some_iff`).

A line height gets the ratio that is reasoned for it, and it is unmatched if there is none.  All
that the reasoning looks at are its file and the composites of its cell.
-/

namespace DesignTokens

/-! ## Font sizes beside line heights -/

namespace Sibling

/-- A token is the font size beside a line height. -/
def IsBeside (token other : Token) : Prop :=
  ∃ stem, Text.lower token.path = stem ++ lineHeightEnding ∧
    Text.lower other.path = stem ++ fontSizeEnding

/-- The last number that a file has for the font size beside a line height. -/
def LastSize (file : TokenFile) (token : Token) (size : Binary64) : Prop :=
  ∃ before other after, file.tokens = before ++ other :: after ∧ IsBeside token other ∧
    other.value.float? = some size ∧
      ∀ later ∈ after, IsBeside token later → later.value.float? = none

theorem leafChars_append {ending : List Char} (hslash : '/' ∉ ending) (front : List Char) :
    Text.leafChars (front ++ ending) = Text.leafChars front ++ ending := by
  have hkept : ∀ c ∈ ending.reverse, (c != '/') = true := by
    intro c hc
    rw [bne_iff_ne]
    rintro rfl
    exact hslash (List.mem_reverse.mp hc)
  rw [Text.leafChars, Text.leafChars, List.reverse_append, List.takeWhile_append_of_pos hkept,
    List.reverse_append, List.reverse_reverse]

/-- The stem of a path is what stands before the ending, which has no slash. -/
theorem stem?_eq_some_iff {ending path stem : String} (hslash : '/' ∉ ending.toList) :
    stem? ending path = some stem ↔ Text.lower path = stem ++ ending := by
  rw [stem?]
  split
  · exact Text.dropEnd?_eq_some_iff
  · next hleaf =>
    refine iff_of_false nofun fun hpath => hleaf ?_
    rw [Text.endsWith, List.isSuffixOf_iff_suffix, Text.toList_leaf, hpath, String.toList_append,
      leafChars_append hslash]
    exact List.suffix_append _ _

theorem sizeFor?_eq_some_iff {stem : String} {token : Token} {size : Binary64} :
    sizeFor? stem token = some size ↔
      Text.lower token.path = stem ++ fontSizeEnding ∧ token.value.float? = some size := by
  rw [sizeFor?, ← stem?_eq_some_iff (by decide)]
  split
  · next h => simp [h]
  · next h => simp [h]

/-- A line height has one stem, which a font size beside it shares. -/
theorem isBeside_iff_of_stem {token : Token} {stem : String}
    (hstem : Text.lower token.path = stem ++ lineHeightEnding) (other : Token) :
    IsBeside token other ↔ Text.lower other.path = stem ++ fontSizeEnding := by
  constructor
  · rintro ⟨stem', hstem', hother⟩
    rw [(String.append_left_inj _).mp (hstem.symm.trans hstem')]
    exact hother
  · exact fun hother => ⟨stem, hstem, hother⟩

/-- The font size for a stem is the last one beside a line height with that stem. -/
theorem fontSize?_eq_some_iff {file : TokenFile} {token : Token} {stem : String} {size : Binary64}
    (hstem : Text.lower token.path = stem ++ lineHeightEnding) :
    fontSize? file stem = some size ↔ LastSize file token size := by
  have hbeside := isBeside_iff_of_stem hstem
  have hnone : ∀ other, sizeFor? stem other = none ↔
      (IsBeside token other → other.value.float? = none) := by
    intro other
    rw [hbeside, Option.eq_none_iff_forall_ne_some]
    simp only [ne_eq, sizeFor?_eq_some_iff, not_and, Option.eq_none_iff_forall_ne_some]
    exact forall_comm
  -- the file is searched from its end, so what comes before in the search stands behind
  rw [fontSize?, List.findSome?_eq_some_iff]
  simp only [sizeFor?_eq_some_iff, hnone, ← hbeside]
  constructor
  · rintro ⟨after, other, before, htokens, ⟨hother, hsize⟩, hafter⟩
    refine ⟨before.reverse, other, after.reverse, ?_, hother, hsize, ?_⟩
    · rw [← List.reverse_reverse file.tokens, htokens]
      simp
    · simpa using hafter
  · rintro ⟨before, other, after, htokens, hother, hsize, hafter⟩
    refine ⟨after.reverse, other, before.reverse, ?_, ⟨hother, hsize⟩, ?_⟩
    · rw [htokens]
      simp
    · simpa using hafter

/-- The ratio of a line height to its sibling goes by the last font size beside it. -/
theorem ratio?_eq_some_iff_lastSize {file : TokenFile} {token : Token} {height ratio : Binary64} :
    ratio? file token height = some ratio ↔
      ∃ size, LastSize file token size ∧ 0 < size ∧ (height / size).toThousandths = ratio := by
  have hsteps : ratio? file token height = some ratio ↔ ∃ stem,
      stem? lineHeightEnding token.path = some stem ∧ ∃ size, fontSize? file stem = some size ∧
        0 < size ∧ (height / size).toThousandths = ratio := by
    simp only [ratio?, Option.bind_eq_bind, Option.bind_eq_some_iff, Option.ite_none_right_eq_some,
      Option.some.injEq]
  rw [hsteps]
  constructor
  · rintro ⟨stem, hstem, size, hsize, hratio⟩
    rw [stem?_eq_some_iff (by decide)] at hstem
    exact ⟨size, (fontSize?_eq_some_iff hstem).mp hsize, hratio⟩
  · rintro ⟨size, hlast, hratio⟩
    obtain ⟨-, other, -, -, ⟨stem, hstem, -⟩, -, -⟩ := id hlast
    exact ⟨stem, (stem?_eq_some_iff (by decide)).mpr hstem, size,
      (fontSize?_eq_some_iff hstem).mpr hlast, hratio⟩

theorem ratio?_eq_none_iff_lastSize {file : TokenFile} {token : Token} {height : Binary64} :
    ratio? file token height = none ↔ ∀ size, LastSize file token size → ¬ 0 < size := by
  rw [Option.eq_none_iff_forall_ne_some]
  simp only [ne_eq, ratio?_eq_some_iff_lastSize]
  constructor
  · intro h size hlast hpositive
    exact h _ ⟨size, hlast, hpositive, rfl⟩
  · rintro h - ⟨size, hlast, hpositive, -⟩
    exact h size hlast hpositive

end Sibling

/-! ## Ratios that composites give -/

namespace RatioIndex

/-- The first of some ratios, if all others are equal to it. -/
def Unanimous (ratios : List Binary64) (ratio : Binary64) : Prop :=
  ∃ rest, ratios = ratio :: rest ∧ ∀ other ∈ rest, ratio.numericallyEqual other

theorem agreed?_eq_some_iff {ratios : List Binary64} {ratio : Binary64} :
    agreed? ratios = some ratio ↔ Unanimous ratios ratio := by
  cases ratios with
  | nil => exact iff_of_false nofun fun ⟨_, h, _⟩ => nomatch h
  | cons first rest =>
      rw [agreed?_cons, Option.ite_none_right_eq_some, List.all_eq_true]
      constructor
      · rintro ⟨hequal, hratio⟩
        obtain rfl := Option.some.inj hratio
        exact ⟨rest, rfl, hequal⟩
      · rintro ⟨others, hratios, hequal⟩
        obtain ⟨rfl, rfl⟩ := List.cons.inj hratios
        exact ⟨hequal, rfl⟩

end RatioIndex

namespace TokenSet

/-- The composites of a cell that have a ratio and are bound to a variable have this one. -/
def GivesTo (tokens : TokenSet) (key : CellKey) (id : VariableId) (ratio : Binary64) : Prop :=
  RatioIndex.Unanimous ((tokens.compositesOf key).filterMap (RatioIndex.ratioFor? id)) ratio

/-- The composites of a cell that have a ratio and, in hundredths, a line height have this one. -/
def GivesAt (tokens : TokenSet) (key : CellKey) (height ratio : Binary64) : Prop :=
  RatioIndex.Unanimous ((tokens.compositesOf key).filterMap
    (RatioIndex.ratioAt? (RatioIndex.hundredths height))) ratio

variable {tokens : TokenSet} {key : CellKey} {id : VariableId} {height : Binary64}

theorem ratioOf?_eq_some_iff_givesTo {ratio : Binary64} :
    (RatioIndex.ofCell tokens key).ratioOf? id = some ratio ↔ tokens.GivesTo key id ratio := by
  rw [RatioIndex.ratioOf?_ofCell, RatioIndex.agreed?_eq_some_iff, GivesTo]

theorem ratioOf?_eq_none_iff_givesTo :
    (RatioIndex.ofCell tokens key).ratioOf? id = none ↔ ∀ ratio, ¬ tokens.GivesTo key id ratio := by
  rw [Option.eq_none_iff_forall_ne_some]
  simp only [ne_eq, ratioOf?_eq_some_iff_givesTo]

/-! ## The first reasoning that applies -/

/-- The ratio of a line height by the first reasoning that applies. -/
inductive Reasoned (tokens : TokenSet) (options : RatioOptions) (file : TokenFile) (token : Token)
    (height : Binary64) : LineHeightRatio → Prop
  /-- The first variable of the chain that composites give a ratio to. -/
  | identity {before after : Trail} {id : VariableId} {ratio : Binary64}
      (chain : token.chain = before ++ id :: after)
      (first : ∀ earlier ∈ before, ∀ ratio, ¬ tokens.GivesTo file.key earlier ratio)
      (gives : tokens.GivesTo file.key id ratio) :
      Reasoned tokens options file token height ⟨ratio, .identity⟩
  /-- The font size beside the line height. -/
  | namePattern {size : Binary64}
      (identity : ∀ id ∈ token.chain, ∀ ratio, ¬ tokens.GivesTo file.key id ratio)
      (sibling : Sibling.LastSize file token size) (positive : 0 < size) :
      Reasoned tokens options file token height ⟨(height / size).toThousandths, .namePattern⟩
  /-- The composites with the line height. -/
  | valuePattern {ratio : Binary64}
      (identity : ∀ id ∈ token.chain, ∀ ratio, ¬ tokens.GivesTo file.key id ratio)
      (sibling : ∀ size, Sibling.LastSize file token size → ¬ 0 < size)
      (enabled : options.valuePattern) (gives : tokens.GivesAt file.key height ratio) :
      Reasoned tokens options file token height ⟨ratio, .valuePattern⟩

variable {options : RatioOptions} {file : TokenFile} {token : Token}

theorem identityRatio?_eq_none_iff :
    Ratio.identityRatio? (.ofCell tokens key) token = none ↔
      ∀ id ∈ token.chain, ∀ ratio, ¬ tokens.GivesTo key id ratio := by
  rw [Ratio.identityRatio?, List.findSome?_eq_none_iff]
  simp only [ratioOf?_eq_none_iff_givesTo]

theorem identityRatio?_eq_some_iff {ratio : Binary64} :
    Ratio.identityRatio? (.ofCell tokens key) token = some ratio ↔
      ∃ before id after, token.chain = before ++ id :: after ∧ tokens.GivesTo key id ratio ∧
        ∀ earlier ∈ before, ∀ ratio, ¬ tokens.GivesTo key earlier ratio := by
  rw [Ratio.identityRatio?, List.findSome?_eq_some_iff]
  simp only [ratioOf?_eq_none_iff_givesTo, ratioOf?_eq_some_iff_givesTo]

theorem ratio?_eq_some_iff_reasoned {ratio : LineHeightRatio} :
    Ratio.ratio? (.ofCell tokens file.key) options file token height = some ratio ↔
      tokens.Reasoned options file token height ratio := by
  rw [Ratio.ratio?_eq_some_iff]
  obtain ⟨ratio, source⟩ := ratio
  constructor
  · intro h
    -- each source comes with the failure of those in front of it
    cases source with
    | identity =>
        obtain ⟨before, id, after, hchain, hgives, hfirst⟩ := identityRatio?_eq_some_iff.mp h
        exact .identity hchain hfirst hgives
    | namePattern =>
        obtain ⟨hidentity, hsibling⟩ := h
        obtain ⟨size, hlast, hpositive, rfl⟩ := Sibling.ratio?_eq_some_iff_lastSize.mp hsibling
        exact .namePattern (identityRatio?_eq_none_iff.mp hidentity) hlast hpositive
    | valuePattern =>
        obtain ⟨hidentity, hsibling, henabled, hvalue⟩ := h
        rw [RatioIndex.ratioOfValue?_ofCell, RatioIndex.agreed?_eq_some_iff] at hvalue
        exact .valuePattern (identityRatio?_eq_none_iff.mp hidentity)
          (Sibling.ratio?_eq_none_iff_lastSize.mp hsibling) henabled hvalue
  · intro h
    cases h with
    | identity chain first gives =>
        exact identityRatio?_eq_some_iff.mpr ⟨_, _, _, chain, gives, first⟩
    | namePattern identity sibling positive =>
        exact ⟨identityRatio?_eq_none_iff.mpr identity,
          Sibling.ratio?_eq_some_iff_lastSize.mpr ⟨_, sibling, positive, rfl⟩⟩
    | valuePattern identity sibling enabled gives =>
        refine ⟨identityRatio?_eq_none_iff.mpr identity,
          Sibling.ratio?_eq_none_iff_lastSize.mpr sibling, enabled, ?_⟩
        rw [RatioIndex.ratioOfValue?_ofCell, RatioIndex.agreed?_eq_some_iff]
        exact gives

end TokenSet

/-! ## Line heights that ratios are sought for -/

/-- A line height with a number, in a cell of brand and breakpoint, that does not refer to a layer
that varies. -/
structure TokenFile.Seeks (file : TokenFile) (token : Token) (height : Binary64) : Prop where
  cell : file.key.mayHaveRatios
  lineHeight : token.isLineHeight
  fixed : ∀ endpoint ∈ token.endpoint,
    ¬ ((∃ axis, endpoint.kind = .semantic axis) ∨ endpoint.kind = .density)
  number : token.value.float? = some height

namespace TokenSet

variable {tokens : TokenSet} {options : RatioOptions} {file : TokenFile} {token : Token}
  {height : Binary64} {i j : Nat}

theorem outcomeOf_of_seeks (seeks : file.Seeks token height) :
    tokens.outcomeOf options (file, token) =
      (Ratio.ratio? (.ofCell tokens file.key) options file token height).elim .unmatched
        .assigned := by
  have hfixed : ¬ token.endpoint.any Endpoint.isSymbolic := by
    rw [Option.any_eq_true]
    rintro ⟨endpoint, hendpoint, hsymbolic⟩
    exact seeks.fixed endpoint hendpoint (CollectionKind.isSymbolic_iff.mp hsymbolic)
  rw [outcomeOf, Ratio.outcome, if_pos seeks.lineHeight, if_neg hfixed, seeks.number,
    Option.bind_some]
  cases Ratio.ratio? (.ofCell tokens file.key) options file token height with
  | none => rfl
  | some ratio => rfl

private theorem outcomeOf_of_reasoned (seeks : file.Seeks token height) {ratio : LineHeightRatio}
    (reasoned : tokens.Reasoned options file token height ratio) :
    tokens.outcomeOf options (file, token) = .assigned ratio := by
  rw [outcomeOf_of_seeks seeks, ratio?_eq_some_iff_reasoned.mpr reasoned, Option.elim_some]

private theorem outcomeOf_of_not_reasoned (seeks : file.Seeks token height)
    (h : ∀ ratio, ¬ tokens.Reasoned options file token height ratio) :
    tokens.outcomeOf options (file, token) = .unmatched := by
  have hnone : Ratio.ratio? (.ofCell tokens file.key) options file token height = none := by
    rw [Option.eq_none_iff_forall_ne_some]
    exact fun ratio hratio => h ratio (ratio?_eq_some_iff_reasoned.mp hratio)
  rw [outcomeOf_of_seeks seeks, hnone, Option.elim_none]

/-- Files and tokens keep their places. -/
theorem getElem?_attachRatios (options : RatioOptions) (hfile : tokens.files[i]? = some file)
    (htoken : file.tokens[j]? = some token) (hcell : file.key.mayHaveRatios) :
    ((tokens.attachRatios options).value.1.files[i]?.bind fun file => file.tokens[j]?) =
      some (Ratio.apply token (tokens.outcomeOf options (file, token))) := by
  rw [value_attachRatios, List.getElem?_map, hfile, Option.map_some, Option.bind_some, attached,
    if_pos hcell, Ratio.attachTo, List.getElem?_map, htoken, Option.map_some]
  rfl

/-- What becomes of a file is a matter of the file and of the composites of its cell. -/
theorem attached_congr {other : TokenSet}
    (h : other.compositesOf file.key = tokens.compositesOf file.key) :
    other.attached options file = tokens.attached options file := by
  rw [attached, attached, RatioIndex.ofCell, RatioIndex.ofCell, h]

private theorem outcomeOf_congr {other : TokenSet}
    (h : other.compositesOf file.key = tokens.compositesOf file.key) :
    other.outcomeOf options (file, token) = tokens.outcomeOf options (file, token) := by
  rw [outcomeOf, outcomeOf, RatioIndex.ofCell, RatioIndex.ofCell, h]

private theorem mem_unmatched_attachRatios (hfile : file ∈ tokens.files)
    (htoken : token ∈ file.tokens) (seeks : file.Seeks token height)
    (houtcome : tokens.outcomeOf options (file, token) = .unmatched) :
    ⟨file.key, file.scope, token.path⟩ ∈ (tokens.attachRatios options).value.2.unmatched := by
  rw [(RatioReport.unmatched_attachRatios_perm tokens options).mem_iff, unmatched]
  refine List.mem_map.mpr ⟨(file, token), List.mem_filter.mpr ⟨?_, ?_⟩, rfl⟩
  · exact mem_lineHeights_iff.mpr ⟨hfile, seeks.cell, htoken, seeks.lineHeight⟩
  · rw [houtcome]
    rfl

/-- **A line height gets the ratio of the first reasoning that applies.**  If there is none, it
stays as it is and is listed as unmatched, with its cell, its scope and its path; and the list holds
no others.  The line height fares alike in every token set with its file and the composites of its
cell, whatever else is in it. -/
theorem lineHeight_gets_reasoned (tokens : TokenSet) (options : RatioOptions)
    (hfile : tokens.files[i]? = some file) (htoken : file.tokens[j]? = some token)
    (seeks : file.Seeks token height) :
    let after := (tokens.attachRatios options).value.1
    let report := (tokens.attachRatios options).value.2
    (∀ ratio, tokens.Reasoned options file token height ratio →
        (after.files[i]?.bind fun file => file.tokens[j]?) =
            some { token with lineHeightRatio := some ratio } ∧
          tokens.outcomeOf options (file, token) = .assigned ratio) ∧
      ((∀ ratio, ¬ tokens.Reasoned options file token height ratio) →
        (after.files[i]?.bind fun file => file.tokens[j]?) = some token ∧
          tokens.outcomeOf options (file, token) = .unmatched ∧
            ⟨file.key, file.scope, token.path⟩ ∈ report.unmatched) ∧
      report.unmatched.Perm ((tokens.lineHeights.filter fun entry =>
        tokens.outcomeOf options entry = .unmatched).map fun entry =>
          ⟨entry.1.key, entry.1.scope, entry.2.path⟩) ∧
      ∀ (other : TokenSet) (k : Nat), other.files[k]? = some file →
        other.compositesOf file.key = tokens.compositesOf file.key →
          (other.attachRatios options).value.1.files[k]? = after.files[i]? ∧
            other.outcomeOf options (file, token) = tokens.outcomeOf options (file, token) := by
  intro after report
  have hplace := getElem?_attachRatios options hfile htoken seeks.cell
  refine ⟨?_, ?_, RatioReport.unmatched_attachRatios_perm tokens options, ?_⟩
  · intro ratio reasoned
    have houtcome := outcomeOf_of_reasoned seeks reasoned
    rw [houtcome] at hplace
    exact ⟨hplace, houtcome⟩
  · intro hnone
    have houtcome := outcomeOf_of_not_reasoned seeks hnone
    rw [houtcome] at hplace
    exact ⟨hplace, houtcome, mem_unmatched_attachRatios (List.mem_of_getElem? hfile)
      (List.mem_of_getElem? htoken) seeks houtcome⟩
  · -- the composites of other cells have no say in any of this
    intro other k hother hcomposites
    refine ⟨?_, outcomeOf_congr hcomposites⟩
    have hafter : after.files[i]? = some (tokens.attached options file) := by
      show (tokens.attachRatios options).value.1.files[i]? = _
      rw [value_attachRatios, List.getElem?_map, hfile, Option.map_some]
    rw [hafter, value_attachRatios, List.getElem?_map, hother, Option.map_some,
      attached_congr hcomposites]

end TokenSet

namespace Sample

theorem float?_number (path : String) (x : Binary64) : (number path x).value.float? = some x := rfl

def quoteLineHeight : Token := number "Text/quoteLineHeight" 30

def quoteSizes : List Token := [number "Text/quoteFontSize" 20, number "Text/quotefontsize" 0]

/-- A line height with two font sizes beside it, in either order. -/
def quoteFile (sizes : List Token) : TokenFile :=
  ⟨.ofBrandBreakpoint "core" "large", "semantic", quoteLineHeight :: sizes⟩

theorem seeks_quoteLineHeight (sizes : List Token) : (quoteFile sizes).Seeks quoteLineHeight 30 :=
  ⟨rfl, by decide, nofun, float?_number _ _⟩

theorem isBeside_quoteLineHeight :
    ∀ token ∈ quoteSizes, Sibling.IsBeside quoteLineHeight token := by
  have hpaths : ∀ token ∈ quoteSizes,
      Text.lower token.path = "text/quote" ++ Sibling.fontSizeEnding := by decide
  exact fun token htoken => ⟨"text/quote", by decide, hpaths token htoken⟩

/-- The size that stands last gives the ratio. -/
theorem quoteLineHeight_gets_ratio :
    let tokens : TokenSet := { files := [quoteFile quoteSizes.reverse] }
    tokens.files[0]? = some (quoteFile quoteSizes.reverse) ∧
      (quoteFile quoteSizes.reverse).tokens[0]? = some quoteLineHeight ∧
      (quoteFile quoteSizes.reverse).Seeks quoteLineHeight 30 ∧
      ((tokens.attachRatios {}).value.1.files[0]?.bind fun file => file.tokens[0]?) =
        some { quoteLineHeight with lineHeightRatio := some ⟨3 / 2, .namePattern⟩ } := by
  intro tokens
  have seeks := seeks_quoteLineHeight quoteSizes.reverse
  have hlast : Sibling.LastSize (quoteFile quoteSizes.reverse) quoteLineHeight 20 :=
    ⟨[quoteLineHeight, number "Text/quotefontsize" 0], number "Text/quoteFontSize" 20, [], rfl,
      isBeside_quoteLineHeight _ (List.mem_cons_self ..), float?_number _ _,
      List.forall_mem_nil _⟩
  have hidentity : ∀ id ∈ quoteLineHeight.chain, ∀ ratio,
      ¬ tokens.GivesTo (quoteFile quoteSizes.reverse).key id ratio := by
    rintro id - ratio ⟨rest, hratios, -⟩
    cases hratios
  have hratio : (30 / 20 : Binary64).toThousandths = 3 / 2 := by decide +kernel
  have reasoned : tokens.Reasoned {} (quoteFile quoteSizes.reverse) quoteLineHeight 30
      ⟨3 / 2, .namePattern⟩ := by
    rw [← hratio]
    exact .namePattern hidentity hlast (by decide +kernel)
  obtain ⟨hreasoned, -⟩ :=
    TokenSet.lineHeight_gets_reasoned tokens {} (i := 0) (j := 0) rfl rfl seeks
  exact ⟨rfl, rfl, seeks, (hreasoned _ reasoned).1⟩

/-- A size of zero that stands last keeps another one beside the line height from giving a ratio. -/
theorem quoteLineHeight_gets_none :
    let tokens : TokenSet := { files := [quoteFile quoteSizes] }
    (quoteFile quoteSizes).Seeks quoteLineHeight 30 ∧
      tokens.compositesOf (quoteFile quoteSizes).key = [] ∧
      (∃ token ∈ (quoteFile quoteSizes).tokens, Sibling.IsBeside quoteLineHeight token ∧
        token.value.float? = some 20 ∧ (0 : Binary64) < 20) ∧
      (tokens.attachRatios {}).value.1 = tokens ∧
      (tokens.attachRatios {}).value.2.unmatched =
        [⟨(quoteFile quoteSizes).key, "semantic", "Text/quoteLineHeight"⟩] := by
  intro tokens
  refine ⟨seeks_quoteLineHeight quoteSizes, rfl,
    ⟨number "Text/quoteFontSize" 20, ?_, ?_, float?_number _ _, ?_⟩, ?_, ?_⟩
  · exact List.mem_cons_of_mem _ (List.mem_cons_self ..)
  · exact isBeside_quoteLineHeight _ (List.mem_cons_self ..)
  · decide +kernel
  · decide +kernel
  · decide +kernel

end Sample

end DesignTokens
