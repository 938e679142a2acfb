import DesignTokens.Table

/-!
# Catalogs

A catalog looks items up by keys that they bear, and lists them in the order in which they came.  It
consists of a table and of a list of the keys of that table; to list the items, they are looked up
one key after the other.  Table and list are changed apart from each other, so that they agree is
kept with them, as `Table.Listed`.

An item is inserted in the place of whatever bears its key.  What the insertion gives back says if
that place was taken, and if so, the catalog is given up, for it has lost an item.
-/

namespace DesignTokens

namespace Table

variable {κ ν : Type} [Ord κ] [DecidableEq κ]

/-- The keys of a table stand in a list once each, and every item is found by the key that it
bears. -/
structure Listed (key : ν → κ) (items : Table κ ν) (order : List κ) : Prop where
  nodup : order.Nodup
  mem_order_iff : ∀ k, k ∈ order ↔ (items.get? k).isSome
  key_eq : ∀ k item, items.get? k = some item → key item = k

theorem Listed.empty {key : ν → κ} : Listed key (.empty : Table κ ν) [] :=
  ⟨.nil, fun _ => ⟨nofun, nofun⟩, nofun⟩

variable [Std.TransOrd κ] [Std.LawfulEqOrd κ]

/-- A table with the value of one key set, after the value that the key had. -/
def exchange (t : Table κ ν) (k : κ) (value : ν) : Option ν × Table κ ν :=
  (t.get? k, t.insert k value)

/-- An item whose key was free gets the place behind all others. -/
theorem Listed.concat {key : ν → κ} {items : Table κ ν} {order : List κ} {item : ν}
    (listed : Listed key items order) (free : ¬ (items.get? (key item)).isSome) :
    Listed key (items.insert (key item) item) (order ++ [key item]) where
  nodup := by
    rw [List.nodup_append]
    refine ⟨listed.nodup, List.pairwise_singleton _ _, ?_⟩
    rintro k hk other hother rfl
    rw [List.mem_singleton.mp hother, listed.mem_order_iff] at hk
    exact free hk
  mem_order_iff k := by
    rw [List.mem_append, List.mem_singleton, get?_insert, listed.mem_order_iff]
    split
    · next h => simp [h]
    · next h => simp [h]
  key_eq k other hother := by
    rw [get?_insert] at hother
    split at hother
    · next h =>
      rw [← Option.some.inj hother, h]
    · exact listed.key_eq k other hother

end Table

/-- Items that are looked up by keys which they bear, and listed in the order in which they came. -/
structure Catalog {κ ν : Type} [Ord κ] [DecidableEq κ] (key : ν → κ) where
  items : Table κ ν
  order : List κ
  listed : items.Listed key order

namespace Catalog

variable {κ ν : Type} [Ord κ] [DecidableEq κ] {key : ν → κ}

instance [DecidableEq ν] : DecidableEq (Catalog key) := fun c d =>
  decidable_of_iff (c.items = d.items ∧ c.order = d.order) (by
    cases c; cases d; simp)

def empty : Catalog key := ⟨.empty, [], .empty⟩

instance : Inhabited (Catalog key) := ⟨empty⟩

variable (c : Catalog key)

/-- The item that bears a key. -/
def find? (k : κ) : Option ν := c.items.get? k

/-- The items in the order in which they came. -/
def values : List ν := c.order.filterMap c.items.get?

/-- What is found is listed, and what is listed is found by its key. -/
theorem find?_eq_some_iff {k : κ} {item : ν} :
    c.find? k = some item ↔ item ∈ c.values ∧ key item = k := by
  rw [values, List.mem_filterMap]
  constructor
  · intro h
    have hk : k ∈ c.order := (c.listed.mem_order_iff k).mpr (Option.isSome_of_eq_some h)
    exact ⟨⟨k, hk, h⟩, c.listed.key_eq k item h⟩
  · rintro ⟨⟨k', -, h⟩, rfl⟩
    rw [c.listed.key_eq k' item h]
    exact h

variable [Std.TransOrd κ] [Std.LawfulEqOrd κ]

/-- A catalog with one more item, if no item bears its key yet. -/
def add? (item : ν) : Option (Catalog key) :=
  let exchanged := c.items.exchange (key item) item
  if taken : exchanged.1.isSome then none
  else some ⟨exchanged.2, c.order ++ [key item], c.listed.concat taken⟩

end Catalog

end DesignTokens
