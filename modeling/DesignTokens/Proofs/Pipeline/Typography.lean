import DesignTokens.Pipeline.Typography

/-!
# The line height of a composite

A line height that is bound to a variable has the value of that variable if it is a number, and only
otherwise the one that the text style has itself (`lineHeight_value_eq`).  Moving a weight out of
the font style leaves the line height alone.
-/

namespace DesignTokens

theorem Typography.exists_moveWeight_eq (t : Typography) : ∃ fontStyle fontWeight,
    t.moveWeight = { t with fontStyle, fontWeight } := by
  unfold moveWeight
  split
  · exact ⟨_, _, rfl⟩
  · split
    · exact ⟨_, _, rfl⟩
    · exact ⟨_, _, rfl⟩

@[simp] theorem Typography.lineHeight_moveWeight (t : Typography) :
    t.moveWeight.lineHeight = t.lineHeight := by
  obtain ⟨fontStyle, fontWeight, h⟩ := t.exists_moveWeight_eq
  rw [h]

@[simp] theorem Typography.fontSize_moveWeight (t : Typography) :
    t.moveWeight.fontSize = t.fontSize := by
  obtain ⟨fontStyle, fontWeight, h⟩ := t.exists_moveWeight_eq
  rw [h]

namespace Pipeline

variable {p : Pipeline} {context : Context} {id : VariableId}

private theorem lineHeight_typographyOf (p : Pipeline) (context : Context) (style : TextStyle) :
    (p.typographyOf context style).value.lineHeight =
      (boundOr (p.bindNumber context p.options.typography) style.bindings.lineHeight
        (style.lineHeight.bind fun length =>
          length.pixels? (p.typographyOf context style).value.fontSize.value)).value := by
  simp [typographyOf]

/-- A bound line height has the number that its variable comes to, if it comes to one. -/
theorem lineHeight_value_eq {style : TextStyle}
    (hbound : (p.typographyOf context style).value.lineHeight.boundTo? = some id) :
    ∃ literal, (p.typographyOf context style).value.lineHeight.value =
      (p.graph.value context id).value.float?.or literal := by
  rw [lineHeight_typographyOf] at hbound ⊢
  generalize (style.lineHeight.bind fun _ => _) = literal at hbound ⊢
  cases hbinding : style.bindings.lineHeight with
  | none =>
      rw [hbinding] at hbound
      cases hbound
  | some target =>
      rw [hbinding] at hbound
      obtain rfl : target = id := Option.some.inj hbound
      exact ⟨literal, rfl⟩

end Pipeline

end DesignTokens
