import DesignTokens.Table.Positions

/-!
# Registries

A registry holds items under names, in the order in which the names were first registered.  A second
item for a name is dropped, and whoever registers it is told so.

An item is found by an index, which says where each name stands among the entries.  Index and
entries are changed apart from each other, so it is part of the type that they agree: then a
position from the index is one of an entry, and of the right one.
-/

namespace DesignTokens

/-- What became of an item. -/
inductive Registration where
  | added
  | alreadyPresent
  deriving DecidableEq

structure Registry (α : Type) where
  entries : List (String × α)
  /-- Where the names stand among the entries. -/
  index : Table String Nat
  indexed : index.Locates (entries.map Prod.fst)

namespace Registry

variable {α : Type}

def empty : Registry α := ⟨[], .empty, .nil⟩

instance : Inhabited (Registry α) := ⟨empty⟩

/-- The names in the order of registration. -/
def names (r : Registry α) : List String := r.entries.map Prod.fst

def contains (r : Registry α) (name : String) : Bool := (r.index.get? name).isSome

theorem lt_length_of_get?_index {r : Registry α} {name : String} {i : Nat}
    (h : r.index.get? name = some i) : i < r.entries.length := by
  simpa using r.indexed.lt_length h

/-- The entry that the index names. -/
def position? (r : Registry α) (name : String) : Option (Fin r.entries.length) :=
  (r.index.get? name).pmap Fin.mk fun _ => lt_length_of_get?_index

def get? (r : Registry α) (name : String) : Option α :=
  (r.position? name).map fun i => r.entries[i].2

def size (r : Registry α) : Nat := r.entries.length

def isEmpty (r : Registry α) : Bool := r.entries.isEmpty

theorem indexed_concat {r : Registry α} {name : String} (free : r.index.get? name = none)
    (item : α) :
    (r.index.insert name r.entries.length).Locates
      ((r.entries ++ [(name, item)]).map Prod.fst) := by
  simpa using r.indexed.concat free

/-- A registry with an item under a name, unless the name is taken. -/
def register (r : Registry α) (name : String) (item : α) : Registration × Registry α :=
  if taken : r.contains name then (.alreadyPresent, r)
  else (.added, {
    entries := r.entries ++ [(name, item)]
    index := r.index.insert name r.entries.length
    indexed := indexed_concat (by simpa [contains] using taken) item })

/-- A registry with other items under the same names. -/
def withEntries (r : Registry α) (entries : List (String × α))
    (same : entries.map Prod.fst = r.names) : Registry α :=
  { r with entries, indexed := by rw [same]; exact r.indexed }

/-- A registry whose items are changed in a way that may depend on the name. -/
def mapItems (r : Registry α) (change : String → α → α) : Registry α :=
  r.withEntries (r.entries.map fun entry => (entry.1, change entry.1 entry.2)) (by
    rw [List.map_map]
    rfl)

/-- A registry with another item in the place of one. -/
def replaceAt (r : Registry α) (i : Fin r.entries.length) (item : α) : Registry α :=
  r.withEntries (r.entries.set i (r.entries[i].1, item)) (map_set_of_eq i rfl)

/-- The item of a name, and the registry with another item in its place. -/
def slot? (r : Registry α) (name : String) : Option (α × (α → Registry α)) :=
  (r.position? name).map fun i => (r.entries[i].2, r.replaceAt i)

/-- A registry with a change to the item of one name. -/
def modify (r : Registry α) (name : String) (change : α → α) : Registry α :=
  match r.slot? name with
  | none => r
  | some (item, replace) => replace (change item)

end Registry

end DesignTokens
