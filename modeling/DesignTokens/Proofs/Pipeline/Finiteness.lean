import DesignTokens.Proofs.Format.Input
import DesignTokens.Proofs.Number.Bounds
import DesignTokens.Proofs.Pipeline.Grounded
import DesignTokens.Proofs.Pipeline.Provenance
import DesignTokens.Proofs.Ratio.Origin

/-!
# Which runs hand over finite numbers

A run rounds, takes percentages and divides, and each of these can leave the range of finite
numbers: rounding multiplies first, so a literal of `1e307` comes out infinite, is written as `null`
and is not decoded again.

Numbers far from the limits are safe.  The numbers of an `Export.Moderate` export are at most
`2 ^ 300`, and texts that read as numbers are besides zero or at least `2 ^ -300`.  From there the
bounds are followed along the run, as exponents:

* what a variable comes to is within 307 (`Export.Moderate.within_resolve`);
* so are font sizes, while other lengths are at most 614, as percentages of a size
  (`Typography.Bounded`);
* a ratio divides a length by a size, so it is at most 931, which is finite.
-/

namespace DesignTokens

/-! ## Moderate exports -/

/-- A literal is far from the limits of numbers, also if it is a text that is read as one. -/
def Literal.Moderate : Literal → Prop
  | .number x => x.AtMost 300
  | .text s => ∀ x ∈ numeral? (Text.trim s), x.Within 300
  | .color _ | .bool _ => True

def Entry.Moderate : Entry → Prop
  | .literal value => value.Moderate
  | .alias _ => True

instance : DecidablePred Literal.Moderate
  | .number x => inferInstanceAs (Decidable (x.AtMost 300))
  | .text s => inferInstanceAs (Decidable (∀ x ∈ numeral? (Text.trim s), x.Within 300))
  | .color _ | .bool _ => isTrue trivial

instance : DecidablePred Entry.Moderate
  | .literal value => inferInstanceAs (Decidable value.Moderate)
  | .alias _ => isTrue trivial

/-- All numbers of an export are far from the limits.  Channels of colors do not count, because
they are cut off at zero and one and become text. -/
structure Export.Moderate (source : Export) : Prop where
  entries : ∀ v ∈ source.nodes, ∀ entry ∈ v.entries.entries, entry.2.Moderate
  textStyles : ∀ style ∈ source.textStyles, ∀ x ∈ style.numbers, x.AtMost 300
  effectStyles : ∀ style ∈ source.effectStyles, ∀ effect ∈ style.effects,
    ∀ x ∈ effect.numbers, x.AtMost 300

theorem forall_mem_or {α : Type} {P : α → Prop} {a b : Option α} (ha : ∀ x ∈ a, P x)
    (hb : ∀ x ∈ b, P x) : ∀ x ∈ a.or b, P x := by
  intro x hx
  rcases Option.or_eq_some_iff.mp hx with h | ⟨-, h⟩
  · exact ha x h
  · exact hb x h

/-! ## Numbers that variables come to -/

private theorem Literal.Moderate.within_value {literal : Literal} (moderate : literal.Moderate)
    (declared : VariableType) : ∀ x ∈ (literal.value declared).float?, x.Within 307 := by
  intro x hx
  cases literal with
  | color c => cases hx
  | bool b => cases hx
  | number y =>
      obtain rfl : y.toHundredths = x := Option.some.inj hx
      exact Binary64.AtMost.toHundredths moderate (by decide)
  | text s =>
      cases declared with
      | color => cases hx
      | float => exact (moderate x hx).mono (by decide)
      | string => exact (moderate x hx).mono (by decide)
      | boolean => exact (moderate x hx).mono (by decide)

/-- A number that a variable comes to is the one of a literal. -/
theorem Export.Moderate.within_resolve {source : Export} {overrides : List KindOverride}
    {g : Graph} (moderate : source.Moderate) (built : Graph.ofExport source overrides = .ok g)
    (context : Context) (id : VariableId) :
    ∀ x ∈ (g.resolve context id).value.value.float?, x.Within 307 := by
  intro x hx
  have resolves := Graph.resolves_resolve g context id
  generalize g.resolve context id = result at resolves hx
  cases resolves with
  | absent unknown => cases hx
  | walk walk hlast found ending =>
      cases ending with
      | empty read => cases hx
      | missing read unknown => cases hx
      | circular read visited => cases hx
      -- only a walk that ends in a literal has a number
      | literal read =>
          obtain ⟨hmem, -⟩ := Graph.find?_eq_some_iff.mp found
          obtain ⟨mode, hmode⟩ := Graph.exists_mode_of_entry? read
          obtain ⟨entry, hentry, heq⟩ := Option.map_eq_some_iff.mp hmode
          have hliteral := moderate.entries _ (Graph.nodes_of_ofExport built ▸ hmem) entry
            (List.mem_of_find?_eq_some hentry)
          rw [heq] at hliteral
          exact Literal.Moderate.within_value hliteral _ x hx

theorem Value.finite_numbers {value : Value} (h : ∀ x ∈ value.float?, x.Within 307) :
    ∀ x ∈ value.numbers, x.isFinite := by
  intro x hx
  cases value with
  | float y =>
      obtain rfl : x = y := List.mem_singleton.mp hx
      exact (h x rfl).atMost.1
  | color s => cases hx
  | text s => cases hx
  | bool b => cases hx
  | unresolved reason => cases hx

/-! ## Font weights -/

namespace FontStyle

theorem finite_of_ofText? {text : String} {x : Binary64} (h : FontWeight.ofText? text = some x) :
    x.isFinite := by
  unfold FontWeight.ofText? at h
  simp only at h
  split at h
  · split at h
    · next hbounds =>
      obtain rfl := Option.some.inj h
      exact Binary64.isFinite_of_le_of_le hbounds.1 hbounds.2 (by decide +kernel)
    · cases h
  · obtain ⟨word, hfound, rfl⟩ := Option.map_eq_some_iff.mp h
    have hwords : ∀ word ∈ FontWeight.words, (Binary64.ofNat word.2).isFinite := by
      decide +kernel
    exact hwords word (List.mem_of_find?_eq_some hfound)

theorem finite_regular : FontWeight.regular.isFinite := by decide +kernel

/-- The weight in a font style is one of the known words or lies between 1 and 1000. -/
theorem finite_weight (text : String) : ∀ x ∈ (ofText text).weight, x.isFinite := by
  intro x hx
  unfold ofText at hx
  simp only at hx
  split at hx
  -- nothing is left beside the qualifiers
  · split at hx
    · obtain rfl := Option.some.inj hx
      exact finite_regular
    · cases hx
  · split at hx
    · next weight hweight =>
      obtain rfl := Option.some.inj hx
      exact finite_of_ofText? hweight
    -- the weight with the qualifier written onto it
    · split at hx
      · cases hx
      · next stem _ =>
        simp only at hx
        split at hx
        · obtain rfl := Option.some.inj hx
          exact finite_regular
        · exact finite_of_ofText? hx

end FontStyle

/-! ## Composites -/

/-- The numbers of a composite are bounded so that all of them are finite, and so is its ratio. -/
structure Typography.Bounded (t : Typography) : Prop where
  fontWeight : ∀ x ∈ t.fontWeight.value, x.isFinite
  fontSize : ∀ x ∈ t.fontSize.value, x.Within 307
  lineHeight : ∀ x ∈ t.lineHeight.value, x.AtMost 614
  letterSpacing : ∀ x ∈ t.letterSpacing.value, x.AtMost 614

namespace Typography.Bounded

variable {t : Typography}

theorem finite_numbers (bounded : t.Bounded) : ∀ x ∈ t.numbers, x.isFinite := by
  simp only [Typography.numbers, Property.numbers, List.forall_mem_append, Option.mem_toList]
  exact ⟨⟨⟨bounded.fontWeight, fun x hx => (bounded.fontSize x hx).atMost.1⟩,
    fun x hx => (bounded.lineHeight x hx).1⟩, fun x hx => (bounded.letterSpacing x hx).1⟩

theorem finite_ratio (bounded : t.Bounded) : ∀ r ∈ t.ratio?, r.isFinite := by
  intro r hr
  obtain ⟨size, hsize, hr⟩ := Option.bind_eq_some_iff.mp hr
  obtain ⟨height, hheight, hr⟩ := Option.bind_eq_some_iff.mp hr
  have hwithin := bounded.fontSize size hsize
  split at hr
  · cases hr
  · next hpositive =>
    obtain rfl := Option.some.inj hr
    have hne := Binary64.units_ne_zero_of_not_le hpositive hwithin.atMost.1
    exact Binary64.Within.isFinite_ratio (bounded.lineHeight height hheight) hwithin hne (by decide)

theorem moveWeight (bounded : t.Bounded) : t.moveWeight.Bounded := by
  unfold Typography.moveWeight
  split
  · exact bounded
  · next binding _ =>
    split
    · have hnamed := FontStyle.finite_weight (t.fontStyle.value.getD "")
      refine { bounded with fontWeight := ?_ }
      simp only
      split
      · exact forall_mem_or bounded.fontWeight hnamed
      · exact forall_mem_or hnamed bounded.fontWeight
    · exact bounded

end Typography.Bounded

/-- A length in pixels, where a percentage multiplies two bounds. -/
theorem Length.atMost_bind_pixels? {length : Option Length} {fontSize : Option Binary64}
    (hlength : ∀ x ∈ length.bind Length.value, x.AtMost 300)
    (hsize : ∀ x ∈ fontSize, x.Within 307) :
    ∀ x ∈ length.bind fun length => length.pixels? fontSize, x.AtMost 614 := by
  intro x hx
  obtain ⟨length, rfl, hpixels⟩ := Option.bind_eq_some_iff.mp hx
  unfold Length.pixels? at hpixels
  split at hpixels
  · obtain ⟨y, hy, rfl⟩ := Option.map_eq_some_iff.mp hpixels
    exact ((hlength y hy).toHundredths (by decide)).atMost.mono (by decide)
  -- the hundredth part times the size: 300 and 307, and 7 more for the rounding
  · obtain ⟨percentage, hpercentage, hpixels⟩ := Option.bind_eq_some_iff.mp hpixels
    obtain ⟨size, hsome, hpixels⟩ := Option.bind_eq_some_iff.mp hpixels
    obtain rfl := Option.some.inj hpixels
    obtain ⟨hmost, hleast, hne⟩ := Binary64.bounds_hundred
    have hshare := ((hlength percentage hpercentage).div hleast hmost.1 hne (by decide)).1
    exact ((hshare.mul (hsize size hsome).atMost (by decide)).toHundredths (by decide)).atMost
  · cases hpixels

namespace Pipeline

variable {p : Pipeline} {source : Export} {overrides : List KindOverride} {context : Context}
  {flags : Acceptance}

/-- A property of the number that a binding comes to and of the literal is one of the result. -/
theorem forall_value_boundOr {α : Type} {P : α → Prop} {bind : VariableId → Logged (Property α)}
    {id : Option VariableId} {literal : Option α}
    (hbound : ∀ i, ∀ x ∈ (bind i).value.value, P x) (hliteral : ∀ x ∈ literal, P x) :
    ∀ x ∈ (boundOr bind id literal).value.value, P x := by
  cases id with
  | none => exact hliteral
  | some i => exact forall_mem_or (hbound i) hliteral

section

variable (moderate : source.Moderate) (built : Graph.ofExport source overrides = .ok p.graph)

include moderate built

theorem within_bindNumber (id : VariableId) :
    ∀ x ∈ (p.bindNumber context flags id).value.value, x.Within 307 :=
  moderate.within_resolve built context id

private theorem finite_bindWeight (id : VariableId) :
    ∀ x ∈ (p.bindWeight context flags id).value.value, x.isFinite := by
  refine forall_mem_or ?_ ?_
  · exact fun x hx => (moderate.within_resolve built context id x hx).atMost.1
  · intro x hx
    obtain ⟨text, -, hx⟩ := Option.bind_eq_some_iff.mp hx
    exact FontStyle.finite_of_ofText? hx

private theorem bounded_typographyOf {style : TextStyle} (hstyle : style ∈ p.graph.textStyles) :
    (p.typographyOf context style).value.Bounded := by
  obtain ⟨-, -, htexts, -⟩ := Graph.ofExport_eq_ok built
  have hnumbers := moderate.textStyles style (htexts ▸ hstyle)
  simp only [TextStyle.numbers, List.forall_mem_append, Option.mem_toList] at hnumbers
  obtain ⟨⟨hsize, hheight⟩, hspacing⟩ := hnumbers
  have hnamed : ∀ x ∈ (style.fontName.map fun font => FontStyle.ofText font.style).bind
      FontStyle.weight, x.isFinite := by
    intro x hx
    obtain ⟨named, hfont, hx⟩ := Option.bind_eq_some_iff.mp hx
    obtain ⟨font, -, rfl⟩ := Option.map_eq_some_iff.mp hfont
    exact FontStyle.finite_weight font.style x hx
  -- the size comes first: percentages of it are made into pixels
  have hfontSize : ∀ x ∈ (boundOr (p.bindNumber context p.options.typography)
      style.bindings.fontSize (style.fontSize.map Binary64.toHundredths)).value.value,
        x.Within 307 := by
    refine forall_value_boundOr (within_bindNumber moderate built) ?_
    intro x hx
    obtain ⟨y, hy, rfl⟩ := Option.map_eq_some_iff.mp hx
    exact (hsize y hy).toHundredths (by decide)
  have hbound : ∀ flags i, ∀ x ∈ (p.bindNumber context flags i).value.value, x.AtMost 614 :=
    fun flags i x hx => (within_bindNumber moderate built i x hx).atMost.mono (by decide)
  simp only [typographyOf, Logged.value_bind, Logged.value_pure]
  refine Typography.Bounded.moveWeight ⟨?_, hfontSize, ?_, ?_⟩
  · exact forall_value_boundOr (finite_bindWeight moderate built) hnamed
  · exact forall_value_boundOr (hbound _) (Length.atMost_bind_pixels? hheight hfontSize)
  · exact forall_value_boundOr (hbound _) (Length.atMost_bind_pixels? hspacing hfontSize)

theorem finite_dimension (context : Context) (id : Option VariableId) {literal : Binary64}
    (h : literal.AtMost 300) : ∀ x ∈ (p.dimension context id literal).value.value, x.isFinite := by
  intro x hx
  cases id with
  | none =>
      obtain rfl := Option.some.inj hx
      exact (h.toHundredths (by decide)).atMost.1
  | some i => exact (within_bindNumber moderate built i x hx).atMost.1

private theorem finite_shadow {style : EffectStyle} (hstyle : style ∈ p.graph.effectStyles)
    {effect : Effect} (heffect : effect ∈ style.effects) :
    ∀ x ∈ (p.shadow context effect).value.numbers, x.isFinite := by
  obtain ⟨-, -, -, heffects⟩ := Graph.ofExport_eq_ok built
  have hnumbers := moderate.effectStyles style (heffects ▸ hstyle) effect heffect
  simp only [Effect.numbers, List.forall_mem_cons] at hnumbers
  obtain ⟨hx, hy, hradius, hspread, -⟩ := hnumbers
  have hoffsetX := finite_dimension moderate built context effect.bindings.offsetX hx
  have hoffsetY := finite_dimension moderate built context effect.bindings.offsetY hy
  have hradius := finite_dimension moderate built context effect.bindings.radius hradius
  have hspread := finite_dimension moderate built context effect.bindings.spread hspread
  simp only [ShadowLayer.numbers, Property.numbers, List.forall_mem_append, Option.mem_toList]
  unfold shadow
  cases effect.bindings.color with
  | none => exact ⟨⟨⟨hoffsetX, hoffsetY⟩, hradius⟩, hspread⟩
  | some id => exact ⟨⟨⟨hoffsetX, hoffsetY⟩, hradius⟩, hspread⟩

private theorem finite_effectOf {style : EffectStyle} (hstyle : style ∈ p.graph.effectStyles)
    (cell : Cell) : ∀ x ∈ (p.effectOf cell style).value.numbers, x.isFinite := by
  refine List.forall_mem_flatMap.mpr ?_
  intro layer hlayer
  simp only [effectOf, Logged.value_bind, Logged.value_forList, Logged.value_pure] at hlayer
  obtain ⟨effect, heffect, rfl⟩ := List.mem_map.mp hlayer
  exact finite_shadow moderate built hstyle (List.mem_filter.mp heffect).1

end

end Pipeline

/-! ## Token sets -/

/-- The numbers of a token set without ratios are bounded so that it can get them. -/
structure TokenSet.Bounded (tokens : TokenSet) : Prop where
  values : ∀ value ∈ tokens.values, ∀ x ∈ value.float?, x.Within 307
  typography : ∀ composite ∈ tokens.typography, composite.typography.Bounded
  effects : ∀ token ∈ tokens.effects, ∀ x ∈ token.numbers, x.isFinite
  unattached : ∀ file ∈ tokens.files, ∀ token ∈ file.tokens, token.lineHeightRatio = none

private theorem Sibling.finite_ratio? {file : TokenFile} {token : Token} {height : Binary64}
    (hsizes : ∀ token ∈ file.tokens, ∀ x ∈ token.value.float?, x.Within 307)
    (hheight : height.Within 307) : ∀ r ∈ Sibling.ratio? file token height, r.isFinite := by
  intro r hr
  unfold Sibling.ratio? at hr
  obtain ⟨stem, -, hr⟩ := Option.bind_eq_some_iff.mp hr
  obtain ⟨size, hsize, hr⟩ := Option.bind_eq_some_iff.mp hr
  obtain ⟨sibling, hsibling, hsize⟩ := List.exists_of_findSome?_eq_some hsize
  have hwithin : size.Within 307 := by
    unfold sizeFor? at hsize
    split at hsize
    · exact hsizes sibling (List.mem_reverse.mp hsibling) size hsize
    · cases hsize
  split at hr
  · next hpositive =>
    obtain rfl := Option.some.inj hr
    have hne := Binary64.units_ne_zero_of_pos hpositive hwithin.atMost.1
    exact Binary64.Within.isFinite_ratio hheight.atMost hwithin hne (by decide)
  · cases hr

namespace TokenSet.Bounded

variable {tokens : TokenSet} {options : RatioOptions}

private theorem finite_attached (bounded : tokens.Bounded) {file : TokenFile}
    (hfile : file ∈ tokens.files) : ∀ x ∈ (tokens.attached options file).numbers, x.isFinite := by
  obtain ⟨hfiles, -⟩ := TokenSet.forall_mem_values_iff.mp bounded.values
  have htokens := hfiles file hfile
  have hratios : ∀ token ∈ (tokens.attached options file).tokens,
      ∀ ratio ∈ token.lineHeightRatio, ratio.ratio.isFinite := by
    -- a ratio comes from a composite, from a sibling, or was there before
    refine TokenSet.forall_ratio_attached (P := fun x => x.isFinite) ?_ ?_ ?_
    · exact fun composite hmem => (bounded.typography composite hmem).finite_ratio
    · intro token htoken height hheight
      exact Sibling.finite_ratio? htokens (htokens token htoken height hheight)
    · intro token htoken ratio hratio
      rw [bounded.unattached file hfile token htoken] at hratio
      cases hratio
  refine List.forall_mem_flatMap.mpr ?_
  intro token htoken
  obtain ⟨old, hold, hsame, -⟩ := TokenSet.exists_of_mem_attached htoken
  refine List.forall_mem_append.mpr ⟨?_, ?_⟩
  · rw [hsame]
    exact Value.finite_numbers (htokens old hold)
  · intro x hx
    obtain ⟨ratio, hratio, rfl⟩ := Option.map_eq_some_iff.mp (Option.mem_toList.mp hx)
    exact hratios token htoken ratio hratio

/-- With ratios, the numbers of a bounded token set are finite, and so are those reported. -/
theorem finite_attachRatios (bounded : tokens.Bounded) (options : RatioOptions) :
    (∀ x ∈ (tokens.attachRatios options).value.1.numbers, x.isFinite) ∧
      ∀ x ∈ (tokens.attachRatios options).value.2.numbers, x.isFinite := by
  obtain ⟨-, hdensity⟩ := TokenSet.forall_mem_values_iff.mp bounded.values
  have hratios : ∀ composite ∈ tokens.typography, ∀ r ∈ composite.typography.ratio?, r.isFinite :=
    fun composite hmem => (bounded.typography composite hmem).finite_ratio
  rw [TokenSet.value_attachRatios]
  constructor
  · simp only [TokenSet.numbers, DensityToken.numbers, List.forall_mem_append,
      List.forall_mem_flatMap, List.forall_mem_map]
    refine ⟨⟨⟨?_, ?_⟩, bounded.effects⟩, ?_⟩
    · intro file hfile
      exact bounded.finite_attached hfile
    · intro composite hmem
      exact (bounded.typography composite hmem).finite_numbers
    · intro row hrow cell hcell
      exact Value.finite_numbers (hdensity row hrow cell hcell)
  · refine List.forall_mem_flatMap.mpr ?_
    intro conflict hconflict
    exact TokenSet.forall_ratio_conflicts (P := fun x => x.isFinite) hratios hconflict

end TokenSet.Bounded

/-! ## Runs -/

namespace Pipeline

variable {p : Pipeline} {source : Export}

private theorem bounded_tokens {overrides : List KindOverride} {built : Logged TokenSet}
    (moderate : source.Moderate) (hgraph : Graph.ofExport source overrides = .ok p.graph)
    (hbuilt : p.tokens = .ok built) : built.value.Bounded := by
  obtain ⟨sized, colored, laid⟩ := isLaidOut_of_tokens hbuilt
  refine ⟨?_, ?_, ?_, ?_⟩
  · intro value hvalue
    obtain ⟨context, id, rfl, -⟩ := draws_tokens hbuilt value hvalue
    exact moderate.within_resolve hgraph context id
  · intro composite hcomposite
    obtain ⟨context, -, style, hstyle, heq⟩ := laid.exists_context_of_mem_typography hcomposite
    rw [heq]
    exact bounded_typographyOf moderate hgraph hstyle
  · intro token htoken
    rw [laid.effects_eq] at htoken
    obtain ⟨cell, -, htoken⟩ := List.mem_flatMap.mp htoken
    rw [effectsIn, Logged.value_forList] at htoken
    obtain ⟨style, hstyle, rfl⟩ := List.mem_map.mp htoken
    exact finite_effectOf moderate hgraph hstyle cell
  · intro file hfile token htoken
    obtain ⟨context, -, htokens⟩ := laid.exists_context_of_mem_files hfile
    obtain ⟨v, -, rfl⟩ := htokens token htoken
    rfl

/-- **Moderate numbers stay numbers.**  If the numbers of an export are far from the limits, all
numbers in the output of a run are finite, whatever the configuration and the options: values,
properties of composites, ratios attached and ratios in conflict.  So none of them is written as
`null`, and the JSON value that stands for the output is decoded to that output.  What becomes of
such a value as a text is another matter. -/
theorem isFinite_of_moderate {config : Configuration} {options : Options} {output : Output}
    (created : create source config options = .ok p) (moderate : source.Moderate)
    (ran : p.run = .ok output) :
    (∀ x ∈ output.numbers, x.isFinite) ∧
      Output.codec.decode 0 (.ofValue (Output.codec.encode output)) = .ok output := by
  obtain ⟨-, hgraph, -, -⟩ := create_eq_ok_iff.mp created
  obtain ⟨built, hbuilt⟩ := p.exists_tokens_eq_ok
  obtain ⟨rfl, -⟩ := (run_eq_ok_iff hbuilt).mp ran
  have hfinite := (bounded_tokens moderate hgraph hbuilt).finite_attachRatios p.options.ratios
  have hnumbers : ∀ x ∈ (Output.ofTokens p.options.ratios built).value.numbers, x.isFinite :=
    List.forall_mem_append.mpr hfinite
  exact ⟨hnumbers, Output.readsBack hnumbers 0 (by decide)⟩

end Pipeline

/-! ## A moderate export and one that is not -/

namespace Sample

/-- The composites of the small run have numbers, and all of them are decoded again. -/
theorem isFinite_of_typesetting :
    Pipeline.create typesettingSource typesetting.config {} = .ok typesetting ∧
      typesettingSource.Moderate ∧ typesetting.run = .ok typeset ∧ typeset.numbers ≠ [] ∧
        Output.codec.decode 0 (.ofValue (Output.codec.encode typeset)) = .ok typeset := by
  have hmoderate : typesettingSource.Moderate :=
    ⟨by decide +kernel, by decide +kernel, by decide +kernel⟩
  obtain ⟨-, hread⟩ := Pipeline.isFinite_of_moderate create_typesetting hmoderate run_typesetting
  exact ⟨create_typesetting, hmoderate, run_typesetting, by decide +kernel, hread⟩

/-- A finite number that is too large to be multiplied by a hundred. -/
def huge : Binary64 := .ofDecimal false ⟨1, 307⟩

def hugeSize : Variable :=
  ⟨⟨"huge"⟩, "Size/huge", sizes.id, .float,
    Table.empty.insert ⟨"value"⟩ (.literal (.number huge))⟩

def hugeSource : Export where
  collections := [⟨sizes.id, sizes.name, sizes.modes⟩]
  nodes := [hugeSize]

def hugeSizing : Pipeline where
  graph := ⟨.ofList [sizes], .ofList [hugeSize], [], []⟩
  config := { brands := [{ name := "core" }] }
  options := {}

def hugeOutput : Output := hugeSizing.run.toOption.getD {}

/-- The numbers that go in are finite, but the one that comes out is not, and what stands for it is
not decoded to it. -/
theorem huge_is_lost :
    Pipeline.create hugeSource hugeSizing.config {} = .ok hugeSizing ∧ huge.isFinite ∧
      hugeSizing.run = .ok hugeOutput ∧ (∃ x ∈ hugeOutput.numbers, ¬ x.isFinite) ∧
        ∀ read, Output.codec.decode 0 (.ofValue (Output.codec.encode hugeOutput)) ≠ .ok read := by
  have hcreated : Pipeline.create hugeSource hugeSizing.config {} = .ok hugeSizing :=
    Pipeline.create_eq_ok_iff.mpr
      ⟨Configuration.validate_eq_ok_iff.mp (by decide +kernel), by decide +kernel, rfl, rfl⟩
  have hran : hugeSizing.run = .ok hugeOutput := Except.eq_ok_of_isOk (by decide +kernel)
  have hfails : (Output.codec.decode 0 (.ofValue (Output.codec.encode hugeOutput))).isOk = false :=
    by decide +kernel
  refine ⟨hcreated, by decide +kernel, hran, by decide +kernel, ?_⟩
  intro read hread
  rw [hread] at hfails
  cases hfails

end Sample

end DesignTokens
