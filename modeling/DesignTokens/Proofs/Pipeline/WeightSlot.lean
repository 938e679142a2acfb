import DesignTokens.Proofs.Graph.Walk
import DesignTokens.Proofs.Pipeline.Fallback

/-!
# A weight in the place of the font style

What the variable that a font style is bound to comes to goes into the slot of the font style and
into no other (`slots_of_text`).  From there a weight is moved if the leaf of the variable says that
it holds one: the slant of the text stays, and its weight goes into the slot of the font weight
(`Typography.moveWeight_bound`).  The two slots that matter then have two bindings and two values,
and what becomes of them is told by comparison with the composite of the same style without the
binding of its font style, which is the composite without anything to move (`typographyOf_of_text`).
-/

namespace DesignTokens

/-- A text style whose font style is bound to no variable. -/
def TextStyle.withoutSlantBinding (style : TextStyle) : TextStyle :=
  { style with bindings := { style.bindings with fontStyle := none } }

/-- A weight that is bound in the place of the font style is moved, or else nothing is. -/
theorem Typography.moveWeight_bound (t : Typography) (text : String) (binding : Binding) :
    ({ t with fontStyle := .bound (some text) binding } : Typography).moveWeight =
      if namesWeight binding.path then
        { t with
          fontStyle := .literal (FontStyle.ofText text).slant
          fontWeight :=
            if t.fontWeight.isBound then t.fontWeight.orElse (FontStyle.ofText text).weight
            else .bound ((FontStyle.ofText text).weight.or t.fontWeight.value) binding }
      else { t with fontStyle := .bound (some text) binding } := rfl

/-- Only what is unresolved has no text. -/
theorem Value.exists_unresolved_of_plainText? {value : Value} (h : value.plainText? = none) :
    ∃ reason, value = .unresolved reason := by
  cases value with
  | unresolved reason => exact ⟨reason, rfl⟩
  | color s | float x | text s | bool b => cases h

/-- What has a text is a variable. -/
theorem Graph.exists_find?_of_plainText? {g : Graph} {context : Context} {id : VariableId}
    {text : String} (h : (g.value context id).value.plainText? = some text) :
    ∃ v, g.find? id = some v ∧ g.pathOf id = v.path := by
  cases hfound : g.find? id with
  | none =>
      rw [value, resolve_of_unknown hfound] at h
      cases h
  | some v => exact ⟨v, rfl, by rw [pathOf, hfound]⟩

namespace Pipeline

variable {p : Pipeline} {context : Context} {flags : Acceptance} {style : TextStyle}
  {id : VariableId} {text : String}

/-- The weight that a variable comes to, by a number or by a word. -/
def weightOf? (p : Pipeline) (context : Context) (id : VariableId) : Option Binary64 :=
  let value := (p.graph.value context id).value
  value.float?.or (value.text?.bind FontWeight.ofText?)

private theorem boundOr_bindWeight (p : Pipeline) (context : Context) (flags : Acceptance)
    (id : VariableId) (literal : Option Binary64) :
    (boundOr (p.bindWeight context flags) (some id) literal).value =
      ⟨(p.weightOf? context id).or literal, some (p.bindingTo context flags id)⟩ :=
  rfl

private theorem boundOr_bindText_of_text
    (htext : (p.graph.value context id).value.plainText? = some text) (literal : Option String) :
    (boundOr (p.bindText context flags) (some id) literal).value =
      .bound (some text) (p.bindingTo context flags id) := by
  have hbound : (boundOr (p.bindText context flags) (some id) literal).value =
      ⟨(p.graph.value context id).value.plainText?.or literal,
        some (p.bindingTo context flags id)⟩ := rfl
  rw [hbound, htext]
  rfl

/-- Without a binding of the font style nothing is moved. -/
theorem typographyOf_withoutSlantBinding (p : Pipeline) (context : Context) (style : TextStyle) :
    (p.typographyOf context style.withoutSlantBinding).value =
      p.slots context style.withoutSlantBinding :=
  moveWeight_slots (by simp [TextStyle.withoutSlantBinding])

/-- The variable that the font style is bound to has its text in that slot and in no other. -/
theorem slots_of_text (hbound : style.bindings.fontStyle = some id)
    (htext : (p.graph.value context id).value.plainText? = some text) :
    p.slots context style = { p.slots context style.withoutSlantBinding with
      fontStyle := .bound (some text) (p.bindingTo context p.unsized id) } := by
  rw [← boundOr_bindText_of_text htext (style.fontStyle?.map FontStyle.slant), ← hbound]
  rfl

/-- The composite of a style whose font style has a text, by that of the style without its binding.
-/
theorem typographyOf_eq_of_text (hbound : style.bindings.fontStyle = some id)
    (htext : (p.graph.value context id).value.plainText? = some text) :
    let rest := (p.typographyOf context style.withoutSlantBinding).value
    let parsed := FontStyle.ofText text
    let binding := p.bindingTo context p.unsized id
    (p.typographyOf context style).value =
      if namesWeight (p.graph.pathOf id) then
        { rest with
          fontStyle := .literal parsed.slant
          fontWeight :=
            if rest.fontWeight.isBound then rest.fontWeight.orElse parsed.weight
            else .bound (parsed.weight.or rest.fontWeight.value) binding }
      else { rest with fontStyle := .bound (some text) binding } := by
  intro rest parsed binding
  have hrest : rest = p.slots context style.withoutSlantBinding :=
    typographyOf_withoutSlantBinding p context style
  rw [typographyOf_eq, slots_of_text hbound htext, Typography.moveWeight_bound, hrest]
  rfl

/-! ## The slot of the font weight -/

theorem fontWeight_typographyOf_withoutSlantBinding (p : Pipeline) (context : Context)
    (style : TextStyle) :
    (p.typographyOf context style.withoutSlantBinding).value.fontWeight =
      (boundOr (p.bindWeight context p.unsized) style.bindings.fontWeight
        (style.fontStyle?.bind FontStyle.weight)).value := by
  rw [typographyOf_withoutSlantBinding]
  rfl

/-- **Where a weight in the place of the font style goes.**  The font style of a text style is bound
to a variable that comes to some text.

If the leaf of the variable speaks of a weight, the font style is the slant of the text, without a
binding.  A font weight without a binding has that of the font style and the weight of the text, or
that of the font if the text has none.  A font weight with a binding keeps it, and also its value,
and has the weight of the text only if it has no value.

If the leaf does not, the font style has the text and the binding, and the font weight is left
alone.  All other properties are left alone in any case. -/
theorem typographyOf_of_text (hbound : style.bindings.fontStyle = some id)
    (htext : (p.graph.value context id).value.plainText? = some text) :
    let t := (p.typographyOf context style).value
    let rest := (p.typographyOf context style.withoutSlantBinding).value
    let parsed := FontStyle.ofText text
    let binding := p.bindingTo context p.unsized id
    (∃ v, p.graph.find? id = some v ∧
      (namesWeight v.path →
        t.fontStyle = .literal (if parsed.italic then "italic" else "normal") ∧
        (style.bindings.fontWeight = none → t.fontWeight =
          .bound (parsed.weight.or (style.fontStyle?.bind FontStyle.weight)) binding) ∧
        ∀ other ∈ style.bindings.fontWeight,
          rest.fontWeight =
            ⟨(p.weightOf? context other).or (style.fontStyle?.bind FontStyle.weight),
              some (p.bindingTo context p.unsized other)⟩ ∧
          t.fontWeight = ⟨rest.fontWeight.value.or parsed.weight, rest.fontWeight.binding⟩) ∧
      (¬ namesWeight v.path →
        t.fontStyle = .bound (some text) binding ∧ t.fontWeight = rest.fontWeight)) ∧
    t.fontFamily = rest.fontFamily ∧ t.fontSize = rest.fontSize ∧ t.lineHeight = rest.lineHeight ∧
      t.letterSpacing = rest.letterSpacing ∧ t.textCase = rest.textCase ∧
      t.textDecoration = rest.textDecoration := by
  intro t rest parsed binding
  obtain ⟨v, hfound, hpath⟩ := Graph.exists_find?_of_plainText? htext
  have ht : t = _ := typographyOf_eq_of_text hbound htext
  -- what the weight would be without the binding of the slant
  have hweight : rest.fontWeight = _ := fontWeight_typographyOf_withoutSlantBinding p context style
  rw [hpath] at ht
  refine ⟨⟨v, hfound, ?_, ?_⟩, ?_⟩
  · -- the variable names a weight, so its binding moves to the slot of the weight if that is free
    intro hname
    rw [if_pos hname] at ht
    rw [ht]
    refine ⟨rfl, ?_, ?_⟩
    · intro hfree
      rw [hfree] at hweight
      show (if rest.fontWeight.isBound then _ else _) = _
      rw [hweight]
      rfl
    · intro other hother
      rw [hother, boundOr_bindWeight] at hweight
      refine ⟨hweight, ?_⟩
      show (if rest.fontWeight.isBound then _ else _) = _
      rw [hweight]
      rfl
  · -- it names none and stays in the slot of the slant
    intro hname
    rw [if_neg hname] at ht
    rw [ht]
    exact ⟨rfl, rfl⟩
  · rw [ht]
    split
    · exact ⟨rfl, rfl, rfl, rfl, rfl, rfl⟩
    · exact ⟨rfl, rfl, rfl, rfl, rfl, rfl⟩

end Pipeline

namespace Sample

/-- A text with a weight and a slant, in a variable with the name of a weight. -/
def displayWeight : Variable :=
  ⟨⟨"displayWeight"⟩, "Text/displayWeight", breakpoints.id, .string,
    Table.empty.insert ⟨"sm"⟩ (.literal (.text "Black Italic"))⟩

def displayStyle : TextStyle where
  id := "display"
  name := "Display"
  fontName := some ⟨"Inter", "Bold"⟩
  fontSize := some 32
  bindings := { fontStyle := some displayWeight.id }

def displays : Pipeline where
  graph := ⟨.ofList [breakpoints], .ofList [displayWeight], [displayStyle], []⟩
  config := { brands := [{ name := "core" }], breakpoints := [⟨"small", ⟨"sm"⟩⟩] }
  options := {}

theorem typography_of_displayStyle :
    displayStyle.bindings.fontStyle = some displayWeight.id ∧
      (displays.graph.value coreSmall displayWeight.id).value.plainText? = some "Black Italic" ∧
      (displays.typographyOf coreSmall displayStyle).value.fontStyle = .literal "italic" ∧
      (displays.typographyOf coreSmall displayStyle).value.fontWeight.value = some 900 ∧
      (displays.typographyOf coreSmall displayStyle).value.fontWeight.boundTo? =
        some displayWeight.id ∧
      (displays.typographyOf coreSmall displayStyle).value.fontSize =
        (displays.typographyOf coreSmall displayStyle.withoutSlantBinding).value.fontSize := by
  have hbound : displayStyle.bindings.fontStyle = some displayWeight.id := rfl
  have htext : (displays.graph.value coreSmall displayWeight.id).value.plainText? =
      some "Black Italic" := by decide +kernel
  obtain ⟨⟨v, hfound, hweight, -⟩, -, hsize, -⟩ := Pipeline.typographyOf_of_text hbound htext
  obtain rfl : v = displayWeight := Option.some.inj (hfound.symm.trans (by decide +kernel))
  obtain ⟨hslant, hfree, -⟩ := hweight (by decide +kernel)
  have hmoved := hfree rfl
  refine ⟨hbound, htext, hslant.trans (by decide +kernel), ?_, ?_, hsize⟩
  · rw [hmoved]
    decide +kernel
  · rw [hmoved]
    rfl

end Sample

end DesignTokens
