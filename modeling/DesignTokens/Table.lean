/-!
# Tables

A table holds one value for each of finitely many keys, in ascending order of the keys.  The order
is part of the type, so two tables with the same entries are equal whatever the order of insertion,
and listing a table lists its keys in order.
-/

namespace DesignTokens

/-- Entries in strictly ascending order of their keys. -/
structure Table (κ : Type) [Ord κ] (ν : Type) where
  entries : List (κ × ν)
  ascending : (entries.map Prod.fst).Pairwise fun a b => compare a b = .lt

namespace Table

variable {κ ν : Type} [Ord κ]

theorem ext {t u : Table κ ν} (h : t.entries = u.entries) : t = u := by
  cases t; cases u; cases h; rfl

instance [DecidableEq κ] [DecidableEq ν] : DecidableEq (Table κ ν) := fun t u =>
  decidable_of_iff (t.entries = u.entries) ⟨ext, fun h => by rw [h]⟩

/-- The table without entries. -/
def empty : Table κ ν := ⟨[], .nil⟩

instance : Inhabited (Table κ ν) := ⟨empty⟩

/-- The keys in ascending order. -/
def keys (t : Table κ ν) : List κ := t.entries.map Prod.fst

/-- The value of a key. -/
def get? [DecidableEq κ] (t : Table κ ν) (key : κ) : Option ν :=
  (t.entries.find? fun entry => entry.1 == key).map Prod.snd

theorem get?_eq_none_iff [DecidableEq κ] {t : Table κ ν} {key : κ} :
    t.get? key = none ↔ key ∉ t.keys := by
  rw [get?, keys, Option.map_eq_none_iff, List.find?_eq_none, List.mem_map]
  constructor
  · rintro h ⟨entry, hentry, rfl⟩
    simpa using h entry hentry
  · rintro h entry hentry hkey
    exact h ⟨entry, hentry, by simpa using hkey⟩

/-- A table without the value of a key. -/
def erase [DecidableEq κ] (t : Table κ ν) (key : κ) : Table κ ν where
  entries := t.entries.filter fun entry => entry.1 != key
  ascending := t.ascending.sublist (List.filter_sublist.map Prod.fst)

theorem get?_erase [DecidableEq κ] (t : Table κ ν) (key other : κ) :
    (t.erase key).get? other = if other = key then none else t.get? other := by
  have hfind : ((t.entries.filter fun entry => entry.1 != key).find? fun entry =>
      entry.1 == other) =
        if other = key then none else t.entries.find? fun entry => entry.1 == other := by
    rw [List.find?_filter]
    split
    · next heq =>
      rw [List.find?_eq_none]
      intro entry _
      simp [heq]
    · next hne =>
      congr 1
      funext entry
      by_cases hentry : entry.1 = other
      · simp [hentry, hne]
      · simp [hentry]
  rw [get?, get?, erase, hfind]
  split <;> rfl

/-- Entries with one more, which takes the place of an entry of the same key. -/
def insertEntry (key : κ) (value : ν) : List (κ × ν) → List (κ × ν)
  | [] => [(key, value)]
  | (k, v) :: rest => match compare key k with
    | .lt => (key, value) :: (k, v) :: rest
    | .eq => (key, value) :: rest
    | .gt => (k, v) :: insertEntry key value rest

theorem mem_keys_insertEntry {key k : κ} {value : ν} {entries : List (κ × ν)}
    (h : k ∈ (insertEntry key value entries).map Prod.fst) :
    k = key ∨ k ∈ entries.map Prod.fst := by
  induction entries with
  | nil => simpa [insertEntry] using h
  | cons entry rest ih =>
    obtain ⟨k', v'⟩ := entry
    simp only [insertEntry] at h
    split at h <;> simp only [List.map_cons, List.mem_cons] at h ⊢
    · exact h
    · rcases h with h | h
      · exact .inl h
      · exact .inr (.inr h)
    · rcases h with h | h
      · exact .inr (.inl h)
      · rcases ih h with h | h
        · exact .inl h
        · exact .inr (.inr h)

variable [Std.TransOrd κ] [Std.LawfulEqOrd κ]

theorem pairwise_insertEntry (key : κ) (value : ν) {entries : List (κ × ν)}
    (h : (entries.map Prod.fst).Pairwise fun a b => compare a b = .lt) :
    ((insertEntry key value entries).map Prod.fst).Pairwise fun a b => compare a b = .lt := by
  induction entries with
  | nil => simp [insertEntry]
  | cons entry rest ih =>
    obtain ⟨k, v⟩ := entry
    simp only [List.map_cons, List.pairwise_cons] at h
    simp only [insertEntry]
    split
    · next hlt =>
      simp only [List.map_cons, List.pairwise_cons, List.mem_cons]
      refine ⟨?_, h⟩
      rintro a (rfl | ha)
      · exact hlt
      · exact Std.TransCmp.lt_trans hlt (h.1 a ha)
    · next heq =>
      rw [Std.compare_eq_iff_eq] at heq
      subst heq
      simp only [List.map_cons, List.pairwise_cons]
      exact h
    · next hgt =>
      simp only [List.map_cons, List.pairwise_cons]
      refine ⟨fun a ha => ?_, ih h.2⟩
      rcases mem_keys_insertEntry ha with rfl | ha
      · exact Std.OrientedCmp.gt_iff_lt.mp hgt
      · exact h.1 a ha

/-- A table with the value of one key set. -/
def insert (t : Table κ ν) (key : κ) (value : ν) : Table κ ν :=
  ⟨insertEntry key value t.entries, pairwise_insertEntry key value t.ascending⟩

/-- After an insertion the key has the new value, and the others have theirs. -/
theorem get?_insert [DecidableEq κ] (t : Table κ ν) (key other : κ) (value : ν) :
    (t.insert key value).get? other = if other = key then some value else t.get? other := by
  obtain ⟨entries, ascending⟩ := t
  show ((insertEntry key value entries).find? fun entry => entry.1 == other).map Prod.snd =
    if other = key then some value else (entries.find? fun entry => entry.1 == other).map Prod.snd
  clear ascending
  induction entries with
  | nil =>
      by_cases h : other = key
      · simp [insertEntry, h]
      · simp [insertEntry, h, Ne.symm h]
  | cons first rest ih =>
      unfold insertEntry
      split
      · by_cases h : other = key
        · simp [h]
        · simp [h, Ne.symm h]
      · next heq =>
        rw [Std.compare_eq_iff_eq] at heq
        by_cases h : other = key
        · simp [h]
        · simp [h, Ne.symm h, ← heq]
      · next hgt =>
        -- the first entry stays, and its key is not the new one
        have hne : first.1 ≠ key := by
          intro heq
          rw [heq, Std.compare_self] at hgt
          cases hgt
        by_cases h : first.1 = other
        · simp [h, h ▸ hne]
        · simp [h, ih]

/-- The table of a list of entries; of two entries of one key the later one counts. -/
def ofList (entries : List (κ × ν)) : Table κ ν :=
  entries.foldl (fun t entry => t.insert entry.1 entry.2) empty

end Table

/-- A key that is compared through an injective reading of another ordered type is lawfully
ordered. -/
theorem lawfulEqCmp_compareOn {α β : Type} [Ord β] [Std.LawfulEqOrd β] {f : α → β}
    (injective : ∀ {a b}, f a = f b → a = b) : Std.LawfulEqCmp (compareOn f) where
  compare_self := by simp [compareOn]
  eq_of_compare h := injective (Std.compare_eq_iff_eq.mp h)

end DesignTokens
