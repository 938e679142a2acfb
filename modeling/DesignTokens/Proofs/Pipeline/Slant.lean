import DesignTokens.Proofs.Pipeline.WeightSlot

/-!
# The words for the slant of letters

A slant is one of two words, `normal` and `italic`.  The font style of a composite is one of them if
it is taken from the name of the font, or from a text that was bound in its place and taken apart
because of the weight in it (`exists_slant_of_namesWeight`).  A variable without the name of a
weight is not taken apart: its text goes into the font style as it is, whatever it is
(`fontStyle_value_of_text`).  This is the only way for another word to come there
(`fontStyle_isSlant_iff`).
-/

namespace DesignTokens

namespace FontStyle

/-- No word, or one of the two that say how letters are slanted. -/
def IsSlant (word : Option String) : Prop := word ∈ [none, some "normal", some "italic"]

instance (word : Option String) : Decidable (IsSlant word) := inferInstanceAs (Decidable (_ ∈ _))

theorem isSlant_slant (style : FontStyle) : IsSlant (some style.slant) := by
  rw [slant]
  split
  · decide
  · decide

theorem isSlant_map_slant (named : Option FontStyle) : IsSlant (named.map slant) := by
  cases named with
  | none => decide
  | some style => exact isSlant_slant style

end FontStyle

namespace Pipeline

variable {p : Pipeline} {context : Context} {style : TextStyle} {id : VariableId} {text : String}

/-- Without a binding the font style is the slant of the font. -/
theorem fontStyle_value_of_unbound (h : style.bindings.fontStyle = none) :
    (p.typographyOf context style).value.fontStyle.value =
      style.fontStyle?.map FontStyle.slant := by
  rw [moveWeight_slots (by simp [h]), slots, h]
  rfl

/-- A variable with the name of a weight leaves a slant, that of its text or that of the font. -/
theorem exists_slant_of_namesWeight (hbound : style.bindings.fontStyle = some id)
    (hweight : namesWeight (p.graph.pathOf id)) : ∃ parsed : FontStyle,
      (p.typographyOf context style).value.fontStyle.value = some parsed.slant := by
  cases htext : (p.graph.value context id).value.plainText? with
  | some text =>
      refine ⟨FontStyle.ofText text, ?_⟩
      rw [typographyOf_eq_of_text hbound htext, if_pos hweight]
      rfl
  | none =>
      have breaks : p.graph.Breaks context id := Value.exists_unresolved_of_plainText? htext
      rw [fontStyle_typographyOf_of_breaks breaks hbound hweight]
      cases style.fontStyle? with
      | none => exact ⟨⟨none, false⟩, rfl⟩
      | some named => exact ⟨named, rfl⟩

/-- Any other variable gives its text. -/
theorem fontStyle_value_of_text (hbound : style.bindings.fontStyle = some id)
    (hother : ¬ namesWeight (p.graph.pathOf id))
    (htext : (p.graph.value context id).value.plainText? = some text) :
    (p.typographyOf context style).value.fontStyle.value = some text := by
  rw [typographyOf_eq_of_text hbound htext, if_neg hother]
  rfl

/-- If it has none, there is the slant of the font. -/
theorem fontStyle_value_of_no_text (hbound : style.bindings.fontStyle = some id)
    (hother : ¬ namesWeight (p.graph.pathOf id))
    (hnone : (p.graph.value context id).value.plainText? = none) :
    (p.typographyOf context style).value.fontStyle.value =
      style.fontStyle?.map FontStyle.slant := by
  have hleft : ∀ other ∈ style.bindings.fontStyle, ¬ namesWeight (p.graph.pathOf other) := by
    rw [hbound]
    rintro other ⟨⟩
    exact hother
  rw [moveWeight_slots hleft,
    fontStyle_slots_of_breaks (Value.exists_unresolved_of_plainText? hnone) hbound]

/-- **When a font style is a slant.**  The font style of a composite has no value or one of the
words `normal` and `italic`, unless it is bound to a variable that does not have the name of a
weight and comes to another text.  Then it has this text, be it that of a number or a truth value.
-/
theorem fontStyle_isSlant_iff (p : Pipeline) (context : Context) (style : TextStyle) :
    let word := (p.typographyOf context style).value.fontStyle.value
    (FontStyle.IsSlant word ↔
      ∀ id ∈ style.bindings.fontStyle, ¬ namesWeight (p.graph.pathOf id) →
        FontStyle.IsSlant (p.graph.value context id).value.plainText?) ∧
    ∀ id ∈ style.bindings.fontStyle, ¬ namesWeight (p.graph.pathOf id) →
      ∀ text, (p.graph.value context id).value.plainText? = some text → word = some text := by
  intro word
  refine ⟨?_, fun id hbound hother text => fontStyle_value_of_text hbound hother⟩
  constructor
  · -- a bound text is handed on as it is, so it has to be a slant itself
    intro hslant id hbound hother
    cases htext : (p.graph.value context id).value.plainText? with
    | none => decide
    | some text => exact fontStyle_value_of_text hbound hother htext ▸ hslant
  · intro hbindings
    -- on all other ways the word is made from a slant that was parsed
    cases hbound : style.bindings.fontStyle with
    | none =>
        rw [show word = _ from fontStyle_value_of_unbound hbound]
        exact FontStyle.isSlant_map_slant _
    | some id =>
        by_cases hweight : namesWeight (p.graph.pathOf id)
        · obtain ⟨parsed, hparsed⟩ := exists_slant_of_namesWeight hbound hweight
          rw [show word = _ from hparsed]
          exact FontStyle.isSlant_slant parsed
        · have hslant := hbindings id hbound hweight
          cases htext : (p.graph.value context id).value.plainText? with
          | none =>
              rw [show word = _ from fontStyle_value_of_no_text hbound hweight htext]
              exact FontStyle.isSlant_map_slant _
          | some text =>
              rw [show word = _ from fontStyle_value_of_text hbound hweight htext]
              exact htext ▸ hslant

end Pipeline

/-! ## A slant with a capital -/

namespace Sample

def quoteFontStyle : Variable :=
  ⟨⟨"quoteStyle"⟩, "Text/quoteFontStyle", breakpoints.id, .string,
    Table.empty.insert ⟨"sm"⟩ (.literal (.text "Italic"))⟩

def quotationStyle : TextStyle where
  id := "quote"
  name := "Quote"
  fontName := some ⟨"Inter", "Bold"⟩
  bindings := { fontStyle := some quoteFontStyle.id }

def quotations : Pipeline where
  graph := ⟨.ofList [breakpoints], .ofList [quoteFontStyle], [quotationStyle], []⟩
  config := { brands := [{ name := "core" }], breakpoints := [⟨"small", ⟨"sm"⟩⟩] }
  options := {}

/-- What the variable says is the slant that it names, but not the word for it. -/
theorem fontStyle_of_quotationStyle :
    (FontStyle.ofText "Italic").slant = "italic" ∧
      (quotations.typographyOf coreSmall quotationStyle).value.fontStyle.value = some "Italic" ∧
      ¬ FontStyle.IsSlant
        (quotations.typographyOf coreSmall quotationStyle).value.fontStyle.value := by
  have hword : (quotations.typographyOf coreSmall quotationStyle).value.fontStyle.value =
      some "Italic" := by decide +kernel
  exact ⟨by decide +kernel, hword, by rw [hword]; decide⟩

end Sample

end DesignTokens
