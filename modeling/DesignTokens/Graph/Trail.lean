import DesignTokens.Graph.Selection

/-!
# Trails

A walk along aliases remembers the variables that it came through; the list of their ids is its
trail.  A walk never enters a variable twice, so each step leaves fewer variables to enter:
`unvisited_lt` is why every walk ends.
-/

namespace DesignTokens

/-- The ids of the variables that a walk came through, first one first. -/
abbrev Trail := List VariableId

namespace Graph

variable (g : Graph)

/-- How many variables a walk has not entered. -/
def unvisited (trail : Trail) : Nat := g.nodes.countP fun v => !trail.contains v.id

/-- A trail and where it leads on, by the names of the variables. -/
def describe (trail : Trail) (next : VariableId) : String :=
  String.intercalate " -> " ((trail ++ [next]).map g.pathOf)

theorem unvisited_lt {g : Graph} {trail : Trail} {id : VariableId} {v : Variable}
    (fresh : id ∉ trail) (found : g.find? id = some v) :
    g.unvisited (trail ++ [id]) < g.unvisited trail := by
  obtain ⟨mem, rfl⟩ := find?_eq_some_iff.mp found
  have entered (w : Variable) (h : (!(trail ++ [v.id]).contains w.id) = true) :
      (!trail.contains w.id) = true := by
    simp at h ⊢
    exact h.1
  simp only [unvisited]
  generalize g.nodes = nodes at mem
  induction nodes with
  | nil => simp at mem
  | cons w rest ih =>
    have tail := List.countP_mono_left (l := rest) fun w _ => entered w
    rw [List.countP_cons, List.countP_cons]
    rcases List.mem_cons.mp mem with rfl | mem
    · -- the node itself was not on the trail and is now
      have before : (!trail.contains v.id) = true := by simpa using fresh
      have after : ¬ (!(trail ++ [v.id]).contains v.id) = true := by simp
      rw [if_pos before, if_neg after]
      omega
    · have head := ih mem
      by_cases h : (!(trail ++ [v.id]).contains w.id) = true
      · rw [if_pos h, if_pos (entered w h)]
        omega
      · rw [if_neg h]
        omega

end Graph

end DesignTokens
