import DesignTokens.Proofs.Graph.Axes

/-!
# Axes that are left open

Where an axis is left open, a collection that chooses its mode by it prefers its first mode.  So to
fill the axis with a mode that is the first one of each such collection (`Graph.IsDefault`) changes
no preference, and nothing behind it: the same entries are read, with the same fall-backs where the
preferred mode holds none, and every variable comes to the same by the same chain
(`Graph.resolve_of_fills`).

The first mode is asked for by its id, under which a collection may have another mode as well.  The
first one of the id is found, which it is itself.
-/

namespace DesignTokens

/-- A context differs from another by a mode on an axis that the other leaves open. -/
structure Context.Fills (filled context : Context) (axis : Axis) (mode : ModeId) : Prop where
  brandName_eq : filled.brandName = context.brandName
  isOpen : context.mode? axis = none
  mode?_eq : filled.mode? axis = some mode
  mode?_eq_of_ne : ∀ other, other ≠ axis → filled.mode? other = context.mode? other

/-- The first mode of each collection that chooses by an axis has some id. -/
def Graph.IsDefault (g : Graph) (axis : Axis) (mode : ModeId) : Prop :=
  ∀ c ∈ g.collections, c.kind.modeAxis? = some axis → ∀ first ∈ c.defaultMode?, first.id = mode

instance (g : Graph) (axis : Axis) (mode : ModeId) : Decidable (g.IsDefault axis mode) :=
  inferInstanceAs (Decidable (∀ c ∈ g.collections, c.kind.modeAxis? = some axis →
    ∀ first ∈ c.defaultMode?, first.id = mode))

variable {filled context : Context} {axis : Axis} {mode : ModeId}

namespace Collection

variable {c : Collection}

theorem chosenMode?_of_modeAxis? (haxis : c.kind.modeAxis? = some axis) (context : Context) :
    c.chosenMode? context = (context.mode? axis).bind c.modeById? := by
  unfold chosenMode?
  split
  · next hmapping =>
    -- a brand mapping chooses by no axis
    rw [hmapping] at haxis
    cases haxis
  · rw [haxis, Option.bind_some]

/-- The id of the first mode leads to the first mode. -/
theorem modeById?_of_default (hdefault : ∀ first ∈ c.defaultMode?, first.id = mode) :
    c.modeById? mode = c.defaultMode? := by
  unfold defaultMode? at hdefault ⊢
  unfold modeById?
  cases hmodes : c.modes with
  | nil => rfl
  | cons first rest =>
      rw [hmodes] at hdefault
      obtain rfl : first.id = mode := hdefault first rfl
      simp

/-- A collection prefers its first mode, whether that is named on its axis or the axis is open. -/
theorem preferredMode?_of_fills (fills : filled.Fills context axis mode)
    (hdefault : c.kind.modeAxis? = some axis → ∀ first ∈ c.defaultMode?, first.id = mode) :
    c.preferredMode? filled = c.preferredMode? context := by
  by_cases haxis : c.kind.modeAxis? = some axis
  · rw [preferredMode?, preferredMode?, chosenMode?_of_modeAxis? haxis,
      chosenMode?_of_modeAxis? haxis, fills.mode?_eq, fills.isOpen, Option.bind_some,
      Option.bind_none, Option.none_or, modeById?_of_default (hdefault haxis), Option.or_self]
  -- a collection that chooses by something else is not concerned
  · have agrees : filled.Agrees context c.kind := by
      refine ⟨fun _ _ => fills.brandName_eq, fun other hother => fills.mode?_eq_of_ne other ?_⟩
      rintro rfl
      exact haxis hother
    rw [preferredMode?, preferredMode?, chosenMode?_congr agrees]

end Collection

namespace Graph

variable {g : Graph}

section

variable (fills : filled.Fills context axis mode) (hdefault : g.IsDefault axis mode)

include fills hdefault

private theorem entry?_of_fills (v : Variable) : g.entry? filled v = g.entry? context v := by
  unfold entry?
  cases hc : g.collection? v.collection with
  | none => rfl
  | some c =>
      have hpreferred := Collection.preferredMode?_of_fills fills
        (hdefault c (collection?_eq_some_iff.mp hc).1)
      rw [Option.bind_some, Option.bind_some, Collection.select?, Collection.select?, hpreferred]

/-- To name the first mode on an open axis changes nothing that variables come to. -/
theorem resolve_of_fills (id : VariableId) : g.resolve filled id = g.resolve context id :=
  (Alike.refl g).resolve_eq_of_sameEntries fun _ _ v _ => entry?_of_fills fills hdefault v

theorem value_of_fills (id : VariableId) : g.value filled id = g.value context id := by
  rw [value, resolve_of_fills fills hdefault, value]

theorem endpoint_of_fills (stops : Stops) (id : VariableId) :
    g.endpoint filled stops id = g.endpoint context stops id :=
  (Alike.refl g).endpoint_eq_of_resolve_eq (resolve_of_fills fills hdefault id) stops

end

end Graph

end DesignTokens
