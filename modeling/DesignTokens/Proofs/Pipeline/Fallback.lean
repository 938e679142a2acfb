import DesignTokens.Proofs.Pipeline.Layout
import DesignTokens.Proofs.Pipeline.Typography

/-!
# What a broken binding leaves

A property of a text style that is bound to a variable keeps the binding when the variable comes to
no value, and has what the style says itself instead (`boundOr_of_breaks`).  Then the weight is
moved out of the font style if the variable bound there is named so.  For family, size and lengths
this makes no difference, nor for a font style that is bound to another variable.

A weight that was bound in the place of the font style and comes to nothing is another matter.  What
stands in the place of the font style is then the slant of the font, which is taken apart once more
as if it were the text of the variable, and a slant alone is a regular weight
(`FontStyle.ofText_slant`).  So the weight of the font is lost.
-/

namespace DesignTokens

/-! ## Slants -/

namespace FontStyle

private theorem ofText_normal : ofText "normal" = ⟨some FontWeight.regular, false⟩ := rfl

private theorem ofText_italic : ofText "italic" = ⟨some FontWeight.regular, true⟩ := rfl

private theorem ofText_empty : ofText "" = ⟨none, false⟩ := by decide

/-- A slant is taken for a style of regular weight. -/
theorem ofText_slant (style : FontStyle) :
    ofText style.slant = ⟨some FontWeight.regular, style.italic⟩ := by
  obtain ⟨weight, italic⟩ := style
  cases italic with
  | false => exact ofText_normal
  | true => exact ofText_italic

/-- What is taken for the text of a variable that comes to nothing. -/
theorem ofText_getD_slant (named : Option FontStyle) : ofText ((named.map slant).getD "") =
    ⟨named.map fun _ => FontWeight.regular, named.any italic⟩ := by
  cases named with
  | none => exact ofText_empty
  | some style => exact ofText_slant style

end FontStyle

/-! ## Moving a weight -/

namespace Typography

variable {t : Typography} {binding : Binding}

@[simp] theorem fontFamily_moveWeight (t : Typography) :
    t.moveWeight.fontFamily = t.fontFamily := by
  obtain ⟨fontStyle, fontWeight, h⟩ := t.exists_moveWeight_eq
  rw [h]

@[simp] theorem letterSpacing_moveWeight (t : Typography) :
    t.moveWeight.letterSpacing = t.letterSpacing := by
  obtain ⟨fontStyle, fontWeight, h⟩ := t.exists_moveWeight_eq
  rw [h]

/-- Nothing is moved unless the font style is bound to a variable whose name says so. -/
theorem moveWeight_eq_self (h : ∀ binding ∈ t.fontStyle.binding, ¬ namesWeight binding.path) :
    t.moveWeight = t := by
  unfold moveWeight
  split
  · rfl
  · next binding hbinding => rw [if_neg (h binding hbinding)]

private theorem fontStyle_moveWeight (hbinding : t.fontStyle.binding = some binding)
    (hweight : namesWeight binding.path) : t.moveWeight.fontStyle =
      .literal (FontStyle.ofText (t.fontStyle.value.getD "")).slant := by
  rw [moveWeight, hbinding]
  simp only [hweight, if_true]

theorem fontWeight_moveWeight (hbinding : t.fontStyle.binding = some binding)
    (hweight : namesWeight binding.path) : t.moveWeight.fontWeight =
      if t.fontWeight.isBound then
        t.fontWeight.orElse (FontStyle.ofText (t.fontStyle.value.getD "")).weight
      else .bound ((FontStyle.ofText (t.fontStyle.value.getD "")).weight.or t.fontWeight.value)
        binding := by
  rw [moveWeight, hbinding]
  simp only [hweight, if_true]

/-- A font weight that is bound keeps its binding, and its value if it has one. -/
theorem exists_fontWeight_moveWeight_eq (h : t.fontWeight.isBound) :
    ∃ weight, t.moveWeight.fontWeight = t.fontWeight.orElse weight := by
  by_cases hweight : ∀ binding ∈ t.fontStyle.binding, ¬ namesWeight binding.path
  · rw [moveWeight_eq_self hweight]
    exact ⟨none, by simp [Property.orElse]⟩
  · simp only [not_forall, not_not] at hweight
    obtain ⟨binding, hbinding, hweight⟩ := hweight
    rw [fontWeight_moveWeight hbinding hweight, if_pos h]
    exact ⟨_, rfl⟩

end Typography

/-! ## Broken bindings -/

/-- A variable comes to no value in a context. -/
def Graph.Breaks (g : Graph) (context : Context) (id : VariableId) : Prop :=
  ∃ reason, (g.value context id).value = .unresolved reason

/-- The weight and the slant of the font of a style, as its name has them. -/
def TextStyle.fontStyle? (style : TextStyle) : Option FontStyle :=
  style.fontName.map fun font => FontStyle.ofText font.style

namespace Pipeline

variable {p : Pipeline} {context : Context} {flags : Acceptance} {style : TextStyle}
  {id : VariableId}

/-- Where the walks of properties stop that have no size. -/
def unsized (p : Pipeline) : Acceptance :=
  { p.options.typography with componentBreakpoint := false }

/-- The binding to a variable. -/
def bindingTo (p : Pipeline) (context : Context) (flags : Acceptance) (id : VariableId) :
    Binding where
  id
  path := p.graph.pathOf id
  endpoint := (p.graph.endpointOfReference context (p.stops flags) id).value

section

variable (breaks : p.graph.Breaks context id)

include breaks

/-- A property that reads nothing from a value that is none has the literal and the binding. -/
theorem boundOr_of_breaks {α : Type} {property : VariableId → Logged (Property α)}
    (read : Value → Option α) (hread : ∀ reason, read (.unresolved reason) = none)
    (hproperty : (property id).value =
      .bound (read (p.bind context flags id).value.1) (p.bind context flags id).value.2)
    (literal : Option α) : (boundOr property (some id) literal).value =
      ⟨literal, some (p.bindingTo context flags id)⟩ := by
  obtain ⟨reason, hreason⟩ := breaks
  have hbind : (p.bind context flags id).value =
      (.unresolved reason, p.bindingTo context flags id) := by
    simp [bind, hreason, bindingTo]
  simp [boundOr, hproperty, hbind, hread, Property.bound, Property.orElse]

theorem boundOr_bindNumber_of_breaks (literal : Option Binary64) :
    (boundOr (p.bindNumber context flags) (some id) literal).value =
      ⟨literal, some (p.bindingTo context flags id)⟩ :=
  boundOr_of_breaks breaks Value.float? (fun _ => rfl) rfl literal

theorem boundOr_bindText_of_breaks (literal : Option String) :
    (boundOr (p.bindText context flags) (some id) literal).value =
      ⟨literal, some (p.bindingTo context flags id)⟩ :=
  boundOr_of_breaks breaks Value.plainText? (fun _ => rfl) rfl literal

private theorem boundOr_bindWeight_of_breaks (literal : Option Binary64) :
    (boundOr (p.bindWeight context flags) (some id) literal).value =
      ⟨literal, some (p.bindingTo context flags id)⟩ :=
  boundOr_of_breaks breaks (fun value => value.float?.or (value.text?.bind FontWeight.ofText?))
    (fun _ => rfl) rfl literal

end

/-! ## The slots of a style -/

/-- The composite of a style before a weight is moved. -/
def slots (p : Pipeline) (context : Context) (style : TextStyle) : Typography :=
  let fontSize := (boundOr (p.bindNumber context p.options.typography) style.bindings.fontSize
    (style.fontSize.map Binary64.toHundredths)).value
  { fontFamily := (boundOr (p.bindText context p.unsized) style.bindings.fontFamily
      (style.fontName.map FontName.family)).value
    fontWeight := (boundOr (p.bindWeight context p.unsized) style.bindings.fontWeight
      (style.fontStyle?.bind FontStyle.weight)).value
    fontStyle := (boundOr (p.bindText context p.unsized) style.bindings.fontStyle
      (style.fontStyle?.map FontStyle.slant)).value
    fontSize
    lineHeight := (boundOr (p.bindNumber context p.options.typography) style.bindings.lineHeight
      (style.lineHeight.bind fun length => length.pixels? fontSize.value)).value
    letterSpacing := (boundOr (p.bindNumber context p.unsized) style.bindings.letterSpacing
      (style.letterSpacing.bind fun length => length.pixels? fontSize.value)).value
    textCase := { value := style.textCase }
    textDecoration := { value := style.textDecoration } }

theorem typographyOf_eq (p : Pipeline) (context : Context) (style : TextStyle) :
    (p.typographyOf context style).value = (p.slots context style).moveWeight := rfl

/-- The font style has the binding of the style, whatever the variable comes to. -/
theorem binding_fontStyle_slots (p : Pipeline) (context : Context) (style : TextStyle) :
    (p.slots context style).fontStyle.binding =
      style.bindings.fontStyle.map (p.bindingTo context p.unsized) := by
  simp only [slots]
  cases style.bindings.fontStyle <;> rfl

/-- A font style that is bound to no variable with the name of a weight is left in its place. -/
theorem moveWeight_slots
    (h : ∀ id ∈ style.bindings.fontStyle, ¬ namesWeight (p.graph.pathOf id)) :
    (p.typographyOf context style).value = p.slots context style := by
  rw [typographyOf_eq, Typography.moveWeight_eq_self]
  rw [binding_fontStyle_slots]
  intro binding hbinding
  obtain ⟨id, hid, rfl⟩ := Option.map_eq_some_iff.mp hbinding
  exact h id hid

theorem fontWeight_slots_of_breaks (breaks : p.graph.Breaks context id)
    (hbound : style.bindings.fontWeight = some id) : (p.slots context style).fontWeight =
      ⟨style.fontStyle?.bind FontStyle.weight, some (p.bindingTo context p.unsized id)⟩ := by
  simp only [slots, hbound, boundOr_bindWeight_of_breaks breaks]

/-! ## A weight in the place of the font style -/

section

variable (breaks : p.graph.Breaks context id) (hbound : style.bindings.fontStyle = some id)
  (hweight : namesWeight (p.graph.pathOf id))

include breaks hbound

theorem fontStyle_slots_of_breaks : (p.slots context style).fontStyle =
    ⟨style.fontStyle?.map FontStyle.slant, some (p.bindingTo context p.unsized id)⟩ := by
  simp only [slots, hbound, boundOr_bindText_of_breaks breaks]

include hweight

/-- The slant of the font is kept, without a binding. -/
theorem fontStyle_typographyOf_of_breaks : (p.typographyOf context style).value.fontStyle =
    .literal ((style.fontStyle?.map FontStyle.slant).getD "normal") := by
  have hslot := fontStyle_slots_of_breaks breaks hbound
  rw [typographyOf_eq, Typography.fontStyle_moveWeight (congrArg Property.binding hslot) hweight,
    hslot, FontStyle.ofText_getD_slant]
  cases style.fontStyle? <;> rfl

/-- The weight is regular whatever the font is. -/
theorem fontWeight_typographyOf_of_breaks (hfree : style.bindings.fontWeight = none) :
    (p.typographyOf context style).value.fontWeight =
      ⟨style.fontStyle?.map fun _ => FontWeight.regular,
        some (p.bindingTo context p.unsized id)⟩ := by
  have hslot := fontStyle_slots_of_breaks breaks hbound
  have hweightSlot : (p.slots context style).fontWeight =
      { value := style.fontStyle?.bind FontStyle.weight } := by
    simp only [slots, hfree]
    rfl
  rw [typographyOf_eq, Typography.fontWeight_moveWeight (congrArg Property.binding hslot) hweight,
    hslot, FontStyle.ofText_getD_slant, hweightSlot]
  cases style.fontStyle? <;> rfl

/-- If the font weight comes to nothing as well, it has the weight of the font, and is regular if
the font has none. -/
theorem fontWeight_typographyOf_of_both_break {other : VariableId}
    (hother : style.bindings.fontWeight = some other) (breaks' : p.graph.Breaks context other) :
    (p.typographyOf context style).value.fontWeight =
      ⟨(style.fontStyle?.bind FontStyle.weight).or (style.fontStyle?.map fun _ =>
          FontWeight.regular), some (p.bindingTo context p.unsized other)⟩ := by
  have hslot := fontStyle_slots_of_breaks breaks hbound
  have hweightSlot := fontWeight_slots_of_breaks breaks' hother
  rw [typographyOf_eq, Typography.fontWeight_moveWeight (congrArg Property.binding hslot) hweight,
    hslot, FontStyle.ofText_getD_slant, hweightSlot]
  rfl

end

/-! ## All properties -/

/-- A font weight that comes to nothing keeps its binding and has the weight of the font, if the
font has one or no other weight is bound in the place of the font style. -/
theorem fontWeight_of_breaks (breaks : p.graph.Breaks context id)
    (hbound : style.bindings.fontWeight = some id) :
    (p.typographyOf context style).value.fontWeight.binding =
        some (p.bindingTo context p.unsized id) ∧
      (∀ weight, style.fontStyle?.bind FontStyle.weight = some weight →
        (p.typographyOf context style).value.fontWeight.value = some weight) ∧
      ((∀ other ∈ style.bindings.fontStyle, ¬ namesWeight (p.graph.pathOf other)) →
        (p.typographyOf context style).value.fontWeight.value =
          style.fontStyle?.bind FontStyle.weight) := by
  have hslot := fontWeight_slots_of_breaks breaks hbound
  have hisBound : (p.slots context style).fontWeight.isBound := by
    rw [hslot]
    rfl
  obtain ⟨moved, hmoved⟩ := Typography.exists_fontWeight_moveWeight_eq hisBound
  rw [← typographyOf_eq] at hmoved
  refine ⟨?_, ?_, ?_⟩
  · rw [hmoved, hslot]
    rfl
  · intro weight hweight
    rw [hmoved, hslot, hweight]
    rfl
  · intro hother
    rw [moveWeight_slots hother, hslot]

/-- **What a broken binding leaves.**  If a property of a text style is bound to a variable that
comes to no value, it keeps the binding and has the value that the style has itself: the family, the
weight and the slant of its font, its rounded size, and its lengths at the resulting font size.

The exception is a font style that is bound to a variable with the name of a weight.  It has the
slant of the font, without a binding.  The binding moves to the font weight if that is not bound
itself, and the weight is regular, whatever the weight of the font.  If the font weight is bound and
comes to nothing as well, only a font without a weight makes it regular. -/
theorem typographyOf_of_breaks (p : Pipeline) (context : Context) (style : TextStyle) :
    let t := (p.typographyOf context style).value
    (∀ id ∈ style.bindings.fontFamily, p.graph.Breaks context id → t.fontFamily =
      ⟨style.fontName.map FontName.family, some (p.bindingTo context p.unsized id)⟩) ∧
    (∀ id ∈ style.bindings.fontSize, p.graph.Breaks context id → t.fontSize =
      ⟨style.fontSize.map Binary64.toHundredths,
        some (p.bindingTo context p.options.typography id)⟩) ∧
    (∀ id ∈ style.bindings.lineHeight, p.graph.Breaks context id → t.lineHeight =
      ⟨style.lineHeight.bind fun length => length.pixels? t.fontSize.value,
        some (p.bindingTo context p.options.typography id)⟩) ∧
    (∀ id ∈ style.bindings.letterSpacing, p.graph.Breaks context id → t.letterSpacing =
      ⟨style.letterSpacing.bind fun length => length.pixels? t.fontSize.value,
        some (p.bindingTo context p.unsized id)⟩) ∧
    (∀ id ∈ style.bindings.fontWeight, p.graph.Breaks context id →
      t.fontWeight.binding = some (p.bindingTo context p.unsized id) ∧
      (∀ weight, style.fontStyle?.bind FontStyle.weight = some weight →
        t.fontWeight.value = some weight) ∧
      ((∀ other ∈ style.bindings.fontStyle, ¬ namesWeight (p.graph.pathOf other)) →
        t.fontWeight.value = style.fontStyle?.bind FontStyle.weight)) ∧
    (∀ id ∈ style.bindings.fontStyle, p.graph.Breaks context id →
      ¬ namesWeight (p.graph.pathOf id) → t.fontStyle =
        ⟨style.fontStyle?.map FontStyle.slant, some (p.bindingTo context p.unsized id)⟩) ∧
    ∀ id ∈ style.bindings.fontStyle, p.graph.Breaks context id →
      namesWeight (p.graph.pathOf id) →
        t.fontStyle = .literal ((style.fontStyle?.map FontStyle.slant).getD "normal") ∧
        (style.bindings.fontWeight = none → t.fontWeight =
          ⟨style.fontStyle?.map fun _ => FontWeight.regular,
            some (p.bindingTo context p.unsized id)⟩) ∧
        ∀ other ∈ style.bindings.fontWeight, p.graph.Breaks context other → t.fontWeight =
          ⟨(style.fontStyle?.bind FontStyle.weight).or (style.fontStyle?.map fun _ =>
            FontWeight.regular), some (p.bindingTo context p.unsized other)⟩ := by
  intro t
  -- a weight that is moved touches the slots of weight and style only
  have hfamily : t.fontFamily = (p.slots context style).fontFamily :=
    Typography.fontFamily_moveWeight _
  have hsize : t.fontSize = (p.slots context style).fontSize := Typography.fontSize_moveWeight _
  have hheight : t.lineHeight = (p.slots context style).lineHeight :=
    Typography.lineHeight_moveWeight _
  have hspacing : t.letterSpacing = (p.slots context style).letterSpacing :=
    Typography.letterSpacing_moveWeight _
  refine ⟨?_, ?_, ?_, ?_, ?_, ?_, ?_⟩
  · intro id hbound breaks
    rw [hfamily, slots, hbound]
    exact boundOr_bindText_of_breaks breaks _
  · intro id hbound breaks
    rw [hsize, slots, hbound]
    exact boundOr_bindNumber_of_breaks breaks _
  · intro id hbound breaks
    rw [hheight, hsize, slots, hbound]
    exact boundOr_bindNumber_of_breaks breaks _
  · intro id hbound breaks
    rw [hspacing, hsize, slots, hbound]
    exact boundOr_bindNumber_of_breaks breaks _
  · exact fun id hbound breaks => fontWeight_of_breaks breaks hbound
  · intro id hbound breaks hname
    -- the slant is bound to something else than a weight, so nothing is moved
    have hleft : ∀ other ∈ style.bindings.fontStyle, ¬ namesWeight (p.graph.pathOf other) := by
      rw [hbound]
      rintro other ⟨⟩
      exact hname
    rw [show t = p.slots context style from moveWeight_slots hleft]
    exact fontStyle_slots_of_breaks breaks hbound
  · intro id hbound breaks hname
    exact ⟨fontStyle_typographyOf_of_breaks breaks hbound hname,
      fontWeight_typographyOf_of_breaks breaks hbound hname,
      fun other hother => fontWeight_typographyOf_of_both_break breaks hbound hname hother⟩

end Pipeline

/-! ## Bindings to nothing -/

namespace Sample

def coreSmall : Context := { brandName := some "core", breakpoint := some ⟨"sm"⟩ }

/-- An alias of a variable that does not exist. -/
def lost : Variable :=
  ⟨⟨"lost"⟩, "Text/lost", breakpoints.id, .string, Table.empty.insert ⟨"sm"⟩ (.alias ⟨"ghost"⟩)⟩

/-- Another one, with the name of a weight. -/
def headingWeight : Variable :=
  ⟨⟨"headingWeight"⟩, "Text/headingWeight", breakpoints.id, .string,
    Table.empty.insert ⟨"sm"⟩ (.alias ⟨"ghost"⟩)⟩

/-- All that can be bound is bound to the same variable. -/
def lostStyle : TextStyle where
  id := "lost"
  name := "Lost"
  fontName := some ⟨"Inter", "Bold Italic"⟩
  fontSize := some 20
  lineHeight := some ⟨.percent, some 120⟩
  letterSpacing := some ⟨.pixels, some 2⟩
  bindings := ⟨some lost.id, some lost.id, some lost.id, some lost.id, some lost.id, some lost.id⟩

def headingStyle : TextStyle where
  id := "heading"
  name := "Heading"
  fontName := some ⟨"Inter", "Bold"⟩
  bindings := { fontStyle := some headingWeight.id }

def headings : Pipeline where
  graph := ⟨.ofList [breakpoints], .ofList [lost, headingWeight], [lostStyle, headingStyle], []⟩
  config := { brands := [{ name := "core" }], breakpoints := [⟨"small", ⟨"sm"⟩⟩] }
  options := {}

theorem typography_of_lostStyle :
    headings.graph.Breaks coreSmall lost.id ∧
      (headings.typographyOf coreSmall lostStyle).value.fontFamily.value = some "Inter" ∧
      (headings.typographyOf coreSmall lostStyle).value.fontWeight.value = some 700 ∧
      (headings.typographyOf coreSmall lostStyle).value.fontStyle.value = some "italic" ∧
      (headings.typographyOf coreSmall lostStyle).value.fontSize.value = some 20 ∧
      (headings.typographyOf coreSmall lostStyle).value.lineHeight.value = some 24 ∧
      (headings.typographyOf coreSmall lostStyle).value.letterSpacing.value = some 2 := by
  have breaks : headings.graph.Breaks coreSmall lost.id := ⟨.missingVariable, by decide +kernel⟩
  obtain ⟨hfamily, hsize, hheight, hspacing, hweight, hstyle, -⟩ :=
    headings.typographyOf_of_breaks coreSmall lostStyle
  have hsize := congrArg Property.value (hsize lost.id rfl breaks)
  have hheight := congrArg Property.value (hheight lost.id rfl breaks)
  have hspacing := congrArg Property.value (hspacing lost.id rfl breaks)
  have hleft : ¬ namesWeight (headings.graph.pathOf lost.id) := by decide +kernel
  rw [hsize] at hheight hspacing
  refine ⟨breaks, congrArg Property.value (hfamily lost.id rfl breaks),
    (hweight lost.id rfl breaks).2.1 700 (by decide +kernel), ?_, ?_, ?_, ?_⟩
  · rw [hstyle lost.id rfl breaks hleft]
    decide +kernel
  · rw [hsize]
    decide +kernel
  · rw [hheight]
    decide +kernel
  · rw [hspacing]
    decide +kernel

/-- The font is bold, and the variable in the place of its style comes to nothing.  The weight is
regular. -/
theorem weight_of_headingStyle :
    headings.graph.Breaks coreSmall headingWeight.id ∧
      headingStyle.bindings.fontStyle = some headingWeight.id ∧
      headingStyle.bindings.fontWeight = none ∧
      headingStyle.fontStyle?.bind FontStyle.weight = some 700 ∧
      (headings.typographyOf coreSmall headingStyle).value.fontWeight.boundTo? =
        some headingWeight.id ∧
      (headings.typographyOf coreSmall headingStyle).value.fontWeight.value = some 400 :=
  ⟨⟨.missingVariable, by decide +kernel⟩, rfl, rfl, by decide +kernel, by decide +kernel,
    by decide +kernel⟩

end Sample

end DesignTokens
