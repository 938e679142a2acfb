import DesignTokens.Proofs.FontStyle.Combined
import DesignTokens.Proofs.Number.PlainText
import DesignTokens.Proofs.Pipeline.WeightSlot

/-!
# One weight in either slot

A variable with the name of a weight can be bound in the slot of the font weight, where it is read
as a number or a word, or in that of the font style, from where the weight of its text is moved
(`fontWeight_bindingWeight`, `fontWeight_bindingSlant`).  The two come to one weight
(`weight_ofText_eq_weightOf?`), since a number that is written and taken apart as a text is the same
number again, but for texts that are combined: in the slot of the font weight they are no weight
(`weightOf?_of_isCombined`).
-/

namespace DesignTokens

/-- A text style with its font weight bound to a variable. -/
def TextStyle.bindingWeight (style : TextStyle) (id : VariableId) : TextStyle :=
  { style with bindings := { style.bindings with fontWeight := some id } }

/-- A text style with its font style bound to a variable. -/
def TextStyle.bindingSlant (style : TextStyle) (id : VariableId) : TextStyle :=
  { style with bindings := { style.bindings with fontStyle := some id } }

/-! ## Values as weights -/

theorem FontWeight.ofText?_of_numeral {text : String} {x : Binary64}
    (h : numeral? (Text.trim text) = some x) (hrange : 1 ≤ x ∧ x ≤ 1000) :
    ofText? text = some x := by
  rw [ofText?, h]
  exact if_pos hrange

/-- A number in running text has no blanks to trim. -/
theorem Binary64.numeral?_trim_plainText (x : Binary64) :
    numeral? (Text.trim x.plainText) = some x := by
  have hnumeral := x.numeral?_plainText
  rw [Text.trim_eq_self (FontStyle.isWord_of_numeral? hnumeral), hnumeral]

/-- A number in a text is no combined text, nor is a truth value. -/
theorem Value.text?_of_isCombined {value : Value} {text : String}
    (htext : value.plainText? = some text) (h : FontStyle.IsCombined text) :
    value.text? = some text ∧ value.float? = none := by
  cases value with
  | color s => exact ⟨htext, rfl⟩
  | text s =>
      obtain rfl := Option.some.inj htext
      refine ⟨rfl, Option.eq_none_iff_forall_ne_some.mpr ?_⟩
      intro x (hx : numeral? (Text.trim s) = _)
      exact FontStyle.not_isCombined_of_numeral? hx h
  | float x =>
      obtain rfl := Option.some.inj htext
      exact absurd h (FontStyle.not_isCombined_of_numeral? x.numeral?_trim_plainText)
  | bool b =>
      obtain rfl := Option.some.inj htext
      exact absurd h (by cases b <;> decide)
  | unresolved reason => cases htext

namespace Pipeline

variable {p : Pipeline} {context : Context} {style : TextStyle} {id : VariableId} {text : String}

theorem weightOf?_of_isCombined (htext : (p.graph.value context id).value.plainText? = some text)
    (h : FontStyle.IsCombined text) : p.weightOf? context id = none := by
  obtain ⟨hword, hnumber⟩ := Value.text?_of_isCombined htext h
  simp only [weightOf?]
  rw [hnumber, hword, Option.none_or, Option.bind_some, h.1]

/-- A text that is not combined has the weight that its value comes to, unless this is a number out
of range. -/
theorem weight_ofText_eq_weightOf? (htext : (p.graph.value context id).value.plainText? = some text)
    (hrange : ∀ x ∈ (p.graph.value context id).value.float?, 1 ≤ x ∧ x ≤ 1000)
    (h : ¬ FontStyle.IsCombined text) :
    (FontStyle.ofText text).weight = p.weightOf? context id := by
  rw [FontStyle.weight_ofText_of_not_isCombined h]
  simp only [weightOf?]
  generalize (p.graph.value context id).value = value at htext hrange ⊢
  cases value with
  | color s =>
      obtain rfl := Option.some.inj htext
      show _ = none.or ((some s).bind FontWeight.ofText?)
      rw [Option.none_or, Option.bind_some]
  | text s =>
      obtain rfl := Option.some.inj htext
      show _ = (numeral? (Text.trim s)).or ((some s).bind FontWeight.ofText?)
      cases hnumeral : numeral? (Text.trim s) with
      | some x => rw [Option.some_or, FontWeight.ofText?_of_numeral hnumeral (hrange x hnumeral)]
      | none => rw [Option.none_or, Option.bind_some]
  | float x =>
      obtain rfl := Option.some.inj htext
      exact FontWeight.ofText?_of_numeral x.numeral?_trim_plainText (hrange x rfl)
  | bool b =>
      obtain rfl := Option.some.inj htext
      cases b <;> decide
  | unresolved reason => cases htext

/-! ## Slots -/

/-- Bound to the font weight, a variable has the weight that it comes to, or that of the font. -/
theorem fontWeight_bindingWeight (hfree : style.bindings.fontStyle = none) :
    (p.typographyOf context (style.bindingWeight id)).value.fontWeight =
      .bound ((p.weightOf? context id).or (style.fontStyle?.bind FontStyle.weight))
        (p.bindingTo context p.unsized id) := by
  have hleft : ∀ other ∈ (style.bindingWeight id).bindings.fontStyle,
      ¬ namesWeight (p.graph.pathOf other) := by
    simp [TextStyle.bindingWeight, hfree]
  rw [moveWeight_slots hleft]
  rfl

/-- Bound to the font style, it has the weight of its text, or that of the font. -/
theorem fontWeight_bindingSlant (hfree : style.bindings.fontWeight = none)
    (hname : namesWeight (p.graph.pathOf id))
    (htext : (p.graph.value context id).value.plainText? = some text) :
    (p.typographyOf context (style.bindingSlant id)).value.fontWeight =
      .bound ((FontStyle.ofText text).weight.or (style.fontStyle?.bind FontStyle.weight))
        (p.bindingTo context p.unsized id) := by
  have hrest := fontWeight_typographyOf_withoutSlantBinding p context (style.bindingSlant id)
  rw [show (style.bindingSlant id).bindings.fontWeight = none from hfree] at hrest
  have hbound : (style.bindingSlant id).bindings.fontStyle = some id := rfl
  rw [typographyOf_eq_of_text hbound htext, if_pos hname]
  show (if _ then _ else _) = _
  rw [hrest]
  rfl

/-- **One weight in either slot.**  A variable with the name of a weight comes to a value.  If a
text style has nothing else bound there, its font weight is the same whether the variable is bound
to the font weight or to the font style, unless the value is a number out of range or a combined
text.

A combined text has a qualifier in it, as a word or at its end, or a blank that is no space.  Bound
to the font weight it leaves that of the font; bound to the font style it has the weight that is
found when it is taken apart. -/
theorem fontWeight_of_either_slot
    (hfree : style.bindings.fontWeight = none ∧ style.bindings.fontStyle = none)
    (hname : namesWeight (p.graph.pathOf id))
    (hresolved : (p.graph.value context id).value.isResolved) :
    let value := (p.graph.value context id).value
    let here := (p.typographyOf context (style.bindingWeight id)).value.fontWeight
    let moved := (p.typographyOf context (style.bindingSlant id)).value.fontWeight
    ∃ text, value.plainText? = some text ∧
      ((∀ x ∈ value.float?, 1 ≤ x ∧ x ≤ 1000) → ¬ FontStyle.IsCombined text → moved = here) ∧
      (FontStyle.IsCombined text →
        value.text? = some text ∧
        ((∃ word ∈ Text.words text, FontStyle.isQualifier word) ∨
          (∃ stem, FontWeight.letters text = stem ++ "italic".toList) ∨
          ∃ c ∈ (Text.trim text).toList, Text.isBlank c ∧ c ≠ ' ') ∧
        here.value = style.fontStyle?.bind FontStyle.weight ∧
        moved.value = (FontStyle.ofText text).weight) := by
  intro value here moved
  obtain ⟨text, htext⟩ : ∃ text, value.plainText? = some text := by
    refine Option.ne_none_iff_exists'.mp fun hnone => ?_
    obtain ⟨reason, hreason⟩ := Value.exists_unresolved_of_plainText? hnone
    rw [show (p.graph.value context id).value = _ from hreason] at hresolved
    cases hresolved
  -- one slot reads the value as a number or a weight, the other as the name of a style
  have hhere : here = _ := fontWeight_bindingWeight hfree.2
  have hmoved : moved = _ := fontWeight_bindingSlant hfree.1 hname htext
  refine ⟨text, htext, fun hrange hplain => ?_, fun hcombined => ?_⟩
  · rw [hhere, hmoved, weight_ofText_eq_weightOf? htext hrange hplain]
  · refine ⟨(Value.text?_of_isCombined htext hcombined).1, hcombined.exists_reason, ?_, ?_⟩
    · rw [hhere, weightOf?_of_isCombined htext hcombined]
      rfl
    · obtain ⟨weight, hweight⟩ := Option.ne_none_iff_exists'.mp hcombined.2
      rw [hmoved, hweight]
      rfl

end Pipeline

namespace Sample

/-- A text style with nothing bound. -/
def captionStyle : TextStyle where
  id := "caption"
  name := "Caption"
  fontName := some ⟨"Inter", "Bold"⟩

def captionWeight : Variable :=
  ⟨⟨"captionWeight"⟩, "Text/captionWeight", breakpoints.id, .string,
    Table.empty.insert ⟨"sm"⟩ (.literal (.text "semi-Bold "))⟩

def captions : Pipeline where
  graph := ⟨.ofList [breakpoints], .ofList [captionWeight], [captionStyle], []⟩
  config := { brands := [{ name := "core" }], breakpoints := [⟨"small", ⟨"sm"⟩⟩] }
  options := {}

theorem fontWeight_of_captionStyle :
    namesWeight (captions.graph.pathOf captionWeight.id) ∧
      (captions.graph.value coreSmall captionWeight.id).value.isResolved ∧
      (captions.typographyOf coreSmall
          (captionStyle.bindingSlant captionWeight.id)).value.fontWeight =
        (captions.typographyOf coreSmall
          (captionStyle.bindingWeight captionWeight.id)).value.fontWeight := by
  have hname : namesWeight (captions.graph.pathOf captionWeight.id) := by decide +kernel
  have hvalue : (captions.graph.value coreSmall captionWeight.id).value = .text "semi-Bold " := by
    decide +kernel
  have hresolved : (captions.graph.value coreSmall captionWeight.id).value.isResolved := by
    rw [hvalue]
    rfl
  have hfree : captionStyle.bindings.fontWeight = none ∧ captionStyle.bindings.fontStyle = none :=
    ⟨rfl, rfl⟩
  obtain ⟨text, htext, hsame, -⟩ := Pipeline.fontWeight_of_either_slot hfree hname hresolved
  rw [hvalue] at htext hsame
  obtain rfl := Option.some.inj htext
  exact ⟨hname, hresolved, hsame (by decide +kernel) (by decide +kernel)⟩

/-- `Black Italic` is a weight in the slot of the font style only. -/
theorem fontWeight_of_displayWeight :
    captionStyle.bindings.fontWeight = none ∧ captionStyle.bindings.fontStyle = none ∧
      namesWeight (displays.graph.pathOf displayWeight.id) ∧
      (displays.graph.value coreSmall displayWeight.id).value = .text "Black Italic" ∧
      (displays.typographyOf coreSmall
        (captionStyle.bindingWeight displayWeight.id)).value.fontWeight.value = some 700 ∧
      (displays.typographyOf coreSmall
        (captionStyle.bindingSlant displayWeight.id)).value.fontWeight.value = some 900 := by
  decide +kernel

end Sample

end DesignTokens
