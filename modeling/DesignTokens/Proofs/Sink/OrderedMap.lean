import DesignTokens.Proofs.Sink.Registration

/-!
# A registry is an ordered map

Whatever is done with a registry, one after the other, its names are the registered ones in the
order of their first registration, and an item is what was registered first, with the changes made
since (`Registry.after_isOrderedMap`).

Items change in two ways, at one position that the index gives or all in one pass.  A change at a
position is a pass that leaves the other names alone (`modify_eq_mapItems`), because the index gives
the only position of a name.  So a history needs two laws for each kind of use, what it does to the
names and what to the item of one name, and the second is the same for all names.
-/

namespace DesignTokens.Registry

variable {α : Type} {r : Registry α} {name other : String} {item : α}

/-! ## Changes -/

theorem ext {r s : Registry α} (hentries : r.entries = s.entries) (hindex : r.index = s.index) :
    r = s := by
  obtain ⟨entries, index, _⟩ := r
  obtain ⟨entries', index', _⟩ := s
  obtain rfl : entries = entries' := hentries
  obtain rfl : index = index' := hindex
  rfl

theorem names_mapItems (r : Registry α) (change : String → α → α) :
    (r.mapItems change).names = r.names := by
  rw [names, names, mapItems, withEntries, List.map_map]
  rfl

theorem get?_mapItems (r : Registry α) (change : String → α → α) (name : String) :
    (r.mapItems change).get? name = (r.get? name).map (change name) := by
  refine Option.ext fun item => ?_
  rw [← mem_entries_iff, Option.map_eq_some_iff, mapItems, withEntries, List.mem_map]
  constructor
  · rintro ⟨⟨_, old⟩, hold, heq⟩
    obtain ⟨rfl, rfl⟩ := Prod.mk.inj heq
    exact ⟨old, mem_entries_iff.mp hold, rfl⟩
  · rintro ⟨old, hold, rfl⟩
    exact ⟨(name, old), mem_entries_iff.mpr hold, rfl⟩

private theorem slot?_of_not_mem (h : name ∉ r.names) : r.slot? name = none := by
  have hposition : r.position? name = none := by
    simpa [get?] using get?_of_not_mem h
  rw [slot?, hposition, Option.map_none]

/-- Where a name stands, its item can be replaced. -/
theorem exists_slot?_eq (h : r.get? name = some item) :
    ∃ i, ∃ hlt : i < r.entries.length, r.index.get? name = some i ∧
      r.entries[i] = (name, item) ∧ r.slot? name = some (item, r.replaceAt ⟨i, hlt⟩) := by
  have hname : name ∈ r.names := isSome_get?_iff.mp (by rw [h]; rfl)
  obtain ⟨i, hi⟩ := mem_names_iff.mp hname
  obtain ⟨found, hentry, hfound⟩ := exists_entry_of_index hi
  obtain rfl : item = found := Option.some.inj (h.symm.trans hfound)
  obtain ⟨hlt, hentry⟩ := List.getElem?_eq_some_iff.mp hentry
  have hposition : r.position? name = some ⟨i, hlt⟩ := by
    simp only [position?, hi, Option.pmap_some]
  refine ⟨i, hlt, hi, hentry, ?_⟩
  rw [slot?, hposition, Option.map_some, Fin.getElem_fin, hentry]

theorem isSome_slot?_iff : (r.slot? name).isSome ↔ name ∈ r.names := by
  rw [slot?, Option.isSome_map, ← isSome_get?_iff, get?, Option.isSome_map]

/-- A change at the position of a name is a pass that leaves the other names alone. -/
theorem modify_eq_mapItems (r : Registry α) (name : String) (change : α → α) :
    r.modify name change =
      r.mapItems fun other item => if other = name then change item else item := by
  cases hget : r.get? name with
  | none =>
      have hfree : name ∉ r.names := by
        rw [← isSome_get?_iff, hget]
        exact Bool.false_ne_true
      have hkept : ∀ entry ∈ r.entries,
          (entry.1, if entry.1 = name then change entry.2 else entry.2) = entry := by
        intro entry hentry
        have hne : entry.1 ≠ name := fun h => hfree (h ▸ List.mem_map_of_mem hentry)
        rw [if_neg hne]
      rw [modify, slot?_of_not_mem hfree]
      exact ext ((List.map_congr_left hkept).trans (List.map_id _)).symm rfl
  | some item =>
      obtain ⟨i, hlt, hi, hentry, hslot⟩ := exists_slot?_eq hget
      rw [modify, hslot]
      refine ext (List.ext_getElem (by simp [replaceAt, mapItems, withEntries]) ?_) rfl
      intro j hj _
      have hj : j < r.entries.length := by simpa [replaceAt, withEntries] using hj
      simp only [replaceAt, mapItems, withEntries, Fin.getElem_fin, List.getElem_set,
        List.getElem_map]
      split
      · next hij =>
        subst hij
        simp [hentry]
      · next hij =>
        -- the name would stand in two places
        have hne : r.entries[j].1 ≠ name := by
          rintro hname
          have hindex : r.index.get? name = some j := by
            rw [r.indexed, List.getElem?_map, List.getElem?_eq_getElem hj, Option.map_some, hname]
          exact hij (Option.some.inj (hi.symm.trans hindex))
        rw [if_neg hne]

theorem get?_modify (r : Registry α) (name : String) (change : α → α) (other : String) :
    (r.modify name change).get? other =
      (r.get? other).map fun item => if other = name then change item else item := by
  rw [modify_eq_mapItems, get?_mapItems]

/-- To replace an item is to change it to the new one. -/
theorem replace_eq_modify {replace : α → Registry α} (h : r.slot? name = some (item, replace))
    (new : α) : replace new = r.modify name fun _ => new := by
  rw [modify, h]

private theorem get?_of_slot? {replace : α → Registry α} (h : r.slot? name = some (item, replace)) :
    r.get? name = some item := by
  obtain ⟨found, hfound⟩ := Option.isSome_iff_exists.mp
    (isSome_get?_iff.mpr (isSome_slot?_iff.mp (h ▸ rfl : (r.slot? name).isSome)))
  obtain ⟨_, _, -, -, hslot⟩ := exists_slot?_eq hfound
  rw [h] at hslot
  rw [hfound, (Prod.mk.inj (Option.some.inj hslot)).1]

/-! ## Histories -/

/-- What can be done with a registry. -/
inductive Use (α : Type) where
  | register (name : String) (item : α)
  /-- Change the item of a name, if there is one. -/
  | update (name : String) (change : α → α)
  /-- Change all items in one pass. -/
  | updateAll (change : String → α → α)

namespace Use

/-- The name that an item is registered under. -/
def name? : Use α → Option String
  | .register name _ => some name
  | .update .. | .updateAll _ => none

/-- What becomes of the item of a name that is registered before. -/
def change? (name : String) : Use α → Option (α → α)
  | .register .. => none
  | .update other change => if other = name then some change else none
  | .updateAll change => some (change name)

end Use

/-- A registry after one use of it. -/
def use (r : Registry α) : Use α → Registry α
  | .register name item => (r.register name item).2
  | .update name change => r.modify name change
  | .updateAll change => r.mapItems change

/-- The registry after uses of it, one after the other. -/
def after (uses : List (Use α)) : Registry α := uses.foldl use empty

theorem after_concat (uses : List (Use α)) (last : Use α) :
    after (uses ++ [last]) = (after uses).use last := by
  rw [after, List.foldl_append]
  rfl

/-- One use changes an item that is there already as it says for the name, and no other way. -/
theorem get?_use_of_some (h : r.get? name = some item) (use : Use α) :
    (r.use use).get? name =
      some (((use.change? name).toList).foldl (fun item change => change item) item) := by
  cases use with
  | register other new =>
      rw [Registry.use, get?_register, h]
      rfl
  | update other change =>
      rw [Registry.use, get?_modify, h, Option.map_some, Use.change?]
      by_cases hname : name = other
      · simp [hname]
      · simp [hname, Ne.symm hname]
  | updateAll change =>
      rw [Registry.use, get?_mapItems, h]
      rfl

/-- The names are registered in the order of their first occurrence. -/
theorem names_after (uses : List (Use α)) :
    (after uses).names = (uses.filterMap Use.name?).eraseDups := by
  induction uses using List.reverseRecOn with
  | nil => rfl
  | append_singleton uses last ih =>
      rw [after_concat, List.filterMap_append]
      cases last with
      | register name item =>
          rw [use, names_register, ih]
          exact (eraseDups_concat _ name).symm
      | update name change =>
          rw [use, modify_eq_mapItems, names_mapItems, ih, List.filterMap_cons_none rfl,
            List.filterMap_nil, List.append_nil]
      | updateAll change =>
          rw [use, names_mapItems, ih, List.filterMap_cons_none rfl, List.filterMap_nil,
            List.append_nil]

theorem mem_names_after_iff {uses : List (Use α)} :
    name ∈ (after uses).names ↔ name ∈ uses.filterMap Use.name? := by
  rw [names_after, List.mem_eraseDups]

/-- An item is what was registered first under its name, with the changes made since. -/
theorem get?_after {before : List (Use α)} (first : name ∉ before.filterMap Use.name?)
    (later : List (Use α)) :
    (after (before ++ .register name item :: later)).get? name =
      some ((later.filterMap (Use.change? name)).foldl (fun item change => change item) item) := by
  induction later using List.reverseRecOn with
  | nil =>
      rw [after_concat, use, get?_register, if_pos rfl,
        get?_of_not_mem (mt mem_names_after_iff.mp first)]
      rfl
  | append_singleton later last ih =>
      have hsplit : before ++ .register name item :: (later ++ [last]) =
          (before ++ .register name item :: later) ++ [last] := by simp
      rw [hsplit, after_concat, get?_use_of_some ih, List.filterMap_append, List.foldl_append]
      cases hlast : last.change? name with
      | none => simp [hlast]
      | some change => simp [hlast]

/-! ## The ordered map -/

/-- **A registry is a map that keeps the order and the first item of each name.**  After any uses of
it, its names are the registered ones, each once and in the order of their first registration.  One
more item is added exactly if its name is new, and else nothing changes.  Under a name there is the
item that was registered first, with those changes that were made since to the item of this name or
in passes over all of them, in their order, so a change to one item does not show in another.  An
item is found, found to be replaced and known to be there exactly under the names that are listed.
The index has the positions of these names and no others, so none lies behind the entries. -/
theorem after_isOrderedMap (uses : List (Use α)) :
    let r := after uses
    (r.names = (uses.filterMap Use.name?).eraseDups ∧ r.names.Nodup) ∧
    (∀ name item,
      ((r.register name item).1 = .added ↔ name ∉ uses.filterMap Use.name?) ∧
      (name ∈ uses.filterMap Use.name? → r.register name item = (.alreadyPresent, r))) ∧
    (∀ before name item later, uses = before ++ .register name item :: later →
      name ∉ before.filterMap Use.name? → r.get? name =
        some ((later.filterMap (Use.change? name)).foldl (fun item change => change item) item)) ∧
    (∀ name item replace, r.slot? name = some (item, replace) → r.get? name = some item ∧
      ∀ new, replace new = r.modify name (fun _ => new) ∧ (replace new).get? name = some new ∧
        ∀ other ≠ name, (replace new).get? other = r.get? other) ∧
    (∀ name, ((r.get? name).isSome ↔ name ∈ r.names) ∧ ((r.slot? name).isSome ↔ name ∈ r.names) ∧
      (r.contains name ↔ name ∈ r.names)) ∧
    (∀ name item, (name, item) ∈ r.entries ↔ r.get? name = some item) ∧
    ∀ name i, (r.index.get? name = some i ↔ r.names[i]? = some name) ∧
      (r.index.get? name = some i → i < r.entries.length) := by
  intro r
  refine ⟨⟨names_after uses, r.distinct⟩, ?registration, ?item, ?slot,
    fun _ => ⟨isSome_get?_iff, isSome_slot?_iff, contains_iff⟩, fun _ _ => mem_entries_iff,
    fun name i => ⟨r.indexed name i, lt_length_of_get?_index⟩⟩
  case registration =>
    intro name item
    rw [← mem_names_after_iff]
    refine ⟨?_, register_of_mem⟩
    by_cases h : name ∈ (after uses).names
    · simp [r, register_of_mem h, h]
    · simp [r, (register_of_not_mem h).1, h]
  case item =>
    -- a name that is used first here keeps the item it gets here
    rintro before name item later rfl first
    exact get?_after first later
  case slot =>
    intro name item replace h
    have hitem := get?_of_slot? h
    refine ⟨hitem, fun new => ?_⟩
    rw [replace_eq_modify h]
    refine ⟨rfl, ?_, fun other hother => ?_⟩
    · rw [get?_modify, hitem, Option.map_some, if_pos rfl]
    · simp [get?_modify, hother]

/-- The second item of a name is dropped, and changes before the first do nothing. -/
theorem after_isOrderedMap_of_texts :
    let uses : List (Use String) := [.update "css" (· ++ "!"), .register "json" "a",
      .register "css" "b", .register "json" "c", .update "json" (· ++ "d"),
      .updateAll fun name item => item ++ name]
    (after uses).names = ["json", "css"] ∧ (after uses).get? "json" = some "adjson" ∧
      ((after uses).register "css" "e").1 = .alreadyPresent := by
  intro uses
  obtain ⟨⟨hnames, -⟩, hregister, hitem, -⟩ := after_isOrderedMap uses
  refine ⟨hnames.trans (by decide), ?_, ?_⟩
  · rw [hitem [.update "css" (· ++ "!")] "json" "a" _ rfl (by decide)]
    decide
  · rw [(hregister "css" "e").2 (by decide)]

end DesignTokens.Registry
