import DesignTokens.Table

/-!
# Positions

A list whose items are looked up by their keys is kept together with an index, a table that says
where each key stands.  List and index are changed apart from each other, so that they agree is kept
with them, as `Table.Locates`.
-/

namespace DesignTokens

/-- An item that takes the place of one with the same key leaves the keys as they are. -/
theorem map_set_of_eq {α κ : Type} {key : α → κ} {items : List α} {item : α}
    (i : Fin items.length) (h : key item = key items[i]) :
    (items.set i item).map key = items.map key := by
  have hlt : i.val < (items.map key).length := by simp
  have hkey : key items[i] = (items.map key)[i.val] := (List.getElem_map key).symm
  rw [List.map_set, h, hkey, List.set_getElem_self]

namespace Table

variable {κ : Type} [Ord κ] [DecidableEq κ]

/-- The table says where each key stands in a list, and knows no other keys. -/
def Locates (index : Table κ Nat) (keys : List κ) : Prop :=
  ∀ key i, index.get? key = some i ↔ keys[i]? = some key

namespace Locates

variable {index : Table κ Nat} {keys : List κ} {key : κ} {i : Nat}

theorem nil : (empty : Table κ Nat).Locates [] := fun _ _ => ⟨nofun, nofun⟩

/-- A position from the index is one in the list. -/
theorem lt_length (located : index.Locates keys) (h : index.get? key = some i) :
    i < keys.length :=
  (List.getElem?_eq_some_iff.mp ((located key i).mp h)).1

variable [Std.TransOrd κ] [Std.LawfulEqOrd κ]

/-- A key that is not in the index stands nowhere yet, and gets the place behind all others. -/
theorem concat (located : index.Locates keys) (free : index.get? key = none) :
    (index.insert key keys.length).Locates (keys ++ [key]) := by
  intro other i
  rw [get?_insert, List.getElem?_append]
  split
  · next hkey =>
    subst hkey
    split
    · next hlt =>
      rw [← located, free]
      simp only [Option.some.injEq, reduceCtorEq, iff_false]
      omega
    · next hge =>
      simp only [Option.some.injEq, List.getElem?_singleton]
      split <;> simp <;> omega
  · next hkey =>
    rw [located]
    split
    · rfl
    · next hge =>
      rw [List.getElem?_eq_none (Nat.le_of_not_lt hge)]
      simp only [reduceCtorEq, List.getElem?_singleton, false_iff]
      split <;> simp [Ne.symm hkey]

end Locates

end Table

end DesignTokens
