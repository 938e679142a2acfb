import DesignTokens.Table.Positions
import Mathlib.Data.List.Induction
import Mathlib.Data.List.Nodup
import Mathlib.Data.List.Perm.Basic

/-!
# Keys

Of items with distinct keys, each is found by its key, in whatever order they stand.  Items that
share keys can be grouped by them, which puts them in another order and no more.  First occurrences
are collected one item at a time, and so are groups, of which there is then one for each key in
order of first occurrence (`Groups.foldl_eq`).  The keys of a table ascend, so they are distinct; a
table that is made from a list has the keys of the list, and also its entries if no two of them have
one key.
-/

namespace DesignTokens

/-- Of items with distinct keys one only has the key of an item. -/
theorem filter_eq_singleton_of_nodup {α κ : Type} [BEq κ] [LawfulBEq κ] {key : α → κ}
    {items : List α} (hkeys : (items.map key).Nodup) {item : α} (hitem : item ∈ items) :
    (items.filter fun other => key other == key item) = [item] := by
  induction items with
  | nil => cases hitem
  | cons first rest ih =>
      obtain ⟨hfresh, hrest⟩ := List.nodup_cons.mp hkeys
      rcases List.mem_cons.mp hitem with rfl | hitem
      · rw [List.filter_cons_of_pos (by simp), List.filter_eq_nil_iff.mpr]
        intro other hother heq
        exact hfresh (beq_iff_eq.mp heq ▸ List.mem_map_of_mem hother)
      · have hne : key first ≠ key item := by
          intro heq
          exact hfresh (heq ▸ List.mem_map_of_mem hitem)
        rw [List.filter_cons_of_neg (by simpa using hne), ih hrest hitem]

theorem find?_eq_some_of_nodup {α κ : Type} [BEq κ] [LawfulBEq κ] {key : α → κ} {items : List α}
    (hkeys : (items.map key).Nodup) {item : α} (hitem : item ∈ items) :
    (items.find? fun other => key other == key item) = some item := by
  rw [← List.head?_filter, filter_eq_singleton_of_nodup hkeys hitem]
  rfl

theorem find?_eq_some_iff_of_nodup {α κ : Type} [BEq κ] [LawfulBEq κ] {key : α → κ}
    {items : List α} (hkeys : (items.map key).Nodup) {k : κ} {item : α} :
    (items.find? fun other => key other == k) = some item ↔ item ∈ items ∧ key item = k := by
  constructor
  · intro h
    exact ⟨List.mem_of_find?_eq_some h, by simpa using List.find?_some h⟩
  · rintro ⟨hitem, rfl⟩
    exact find?_eq_some_of_nodup hkeys hitem

/-- What is found under a key does not depend on the order of the items. -/
theorem find?_eq_of_perm {α κ : Type} [BEq κ] [LawfulBEq κ] {key : α → κ} {items others : List α}
    (hperm : items.Perm others) (hkeys : (items.map key).Nodup) (k : κ) :
    (items.find? fun item => key item == k) = others.find? fun item => key item == k := by
  have hkeys' : (others.map key).Nodup := (hperm.map key).nodup_iff.mp hkeys
  refine Option.ext fun item => ?_
  rw [find?_eq_some_iff_of_nodup hkeys, find?_eq_some_iff_of_nodup hkeys', hperm.mem_iff]

/-- To take the items of one key after the other is to put them in another order. -/
theorem flatMap_filter_perm {α κ : Type} [DecidableEq κ] (keyOf : α → κ) (items : List α)
    {keys : List κ} (hnodup : keys.Nodup) :
    (keys.flatMap fun key => items.filter fun item => keyOf item == key).Perm
      (items.filter fun item => keyOf item ∈ keys) := by
  induction keys with
  | nil => simp
  | cons key rest ih =>
      obtain ⟨hfresh, hrest⟩ := List.nodup_cons.mp hnodup
      -- the items of the first key are split off from all others
      let all := items.filter fun item => keyOf item ∈ key :: rest
      have hfirst : (items.filter fun item => keyOf item == key) =
          all.filter fun item => keyOf item == key := by
        rw [List.filter_filter]
        refine List.filter_congr fun item _ => ?_
        by_cases h : keyOf item = key
        · simp [h]
        · simp [h]
      have hothers : (items.filter fun item => keyOf item ∈ rest) =
          all.filter fun item => !(keyOf item == key) := by
        rw [List.filter_filter]
        refine List.filter_congr fun item _ => ?_
        by_cases h : keyOf item = key
        · simp [h, hfresh]
        · simp [h]
      rw [List.flatMap_cons]
      refine ((ih hrest).append_left _).trans ?_
      rw [hfirst, hothers]
      exact List.filter_append_perm _ _

/-- What is made part by part has distinct keys and names together, if the parts have distinct keys
and within a part the names are distinct. -/
theorem nodup_map_pair_flatMap {α β κ ν : Type} {parts : List α} {make : α → List β}
    {itemKey : β → κ} {name : β → ν} (keyOf : α → κ) (distinct : (parts.map keyOf).Nodup)
    (keyed : ∀ part ∈ parts, ∀ item ∈ make part, itemKey item = keyOf part)
    (named : ∀ part ∈ parts, ((make part).map name).Nodup) :
    ((parts.flatMap make).map fun item => (itemKey item, name item)).Nodup := by
  induction parts with
  | nil => exact .nil
  | cons part rest ih =>
      obtain ⟨hfresh, hdistinct⟩ := List.nodup_cons.mp distinct
      obtain ⟨hkeyed, hkeyedRest⟩ := List.forall_mem_cons.mp keyed
      obtain ⟨hnamed, hnamedRest⟩ := List.forall_mem_cons.mp named
      have hnames : ((make part).map fun item => (itemKey item, name item)).map Prod.snd =
          (make part).map name := by
        rw [List.map_map]
        rfl
      have hpart : ((make part).map fun item => (itemKey item, name item)).Nodup :=
        List.Nodup.of_map Prod.snd (hnames ▸ hnamed)
      rw [List.flatMap_cons, List.map_append]
      refine hpart.append (ih hdistinct hkeyedRest hnamedRest) ?_
      -- what is made from another part has another key
      rw [List.disjoint_left]
      rintro pair hpair hpair'
      obtain ⟨item, hitem, rfl⟩ := List.mem_map.mp hpair
      obtain ⟨other, hother, heq⟩ := List.mem_map.mp hpair'
      obtain ⟨later, hlater, hmade⟩ := List.mem_flatMap.mp hother
      have hkey : keyOf later = keyOf part := by
        rw [← hkeyedRest later hlater other hmade, ← hkeyed item hitem]
        exact congrArg Prod.fst heq
      exact hfresh (hkey ▸ List.mem_map_of_mem hlater)

/-! ## First occurrences -/

section

variable {α : Type} [BEq α] [LawfulBEq α]

/-- One more item is a first occurrence exactly if it did not occur before. -/
theorem eraseDups_concat (items : List α) (item : α) :
    (items ++ [item]).eraseDups =
      if item ∈ items.eraseDups then items.eraseDups else items.eraseDups ++ [item] := by
  rw [List.eraseDups_append, List.cons_removeAll]
  by_cases h : item ∈ items
  · simp [h]
  · simp [h, List.eraseDups_cons]

theorem nodup_eraseDups (items : List α) : items.eraseDups.Nodup := by
  induction items using List.reverseRecOn with
  | nil => exact .nil
  | append_singleton items item ih =>
      rw [eraseDups_concat]
      split
      · exact ih
      · next hnew =>
        rw [← List.concat_eq_append]
        exact ih.concat hnew

theorem eraseDups_of_nodup {items : List α} (h : items.Nodup) : items.eraseDups = items := by
  induction items using List.reverseRecOn with
  | nil => rfl
  | append_singleton items item ih =>
      obtain ⟨hitems, -, hdisjoint⟩ := List.nodup_append.mp h
      have hnew : item ∉ items := fun hitem => hdisjoint item hitem item (.head _) rfl
      rw [eraseDups_concat, ih hitems, if_neg hnew]

end

/-! ## Groups -/

/-- Items are grouped by placing one after the other: each begins the group of its key or joins it,
and leaves the groups of other keys alone.  The group of a key is a function of all items so far. -/
structure Groups {α κ β : Type} (keyOf : α → κ) (place : α → List β → List β)
    (group : List α → κ → β) : Prop where
  begins : ∀ {items item}, keyOf item ∉ items.map keyOf →
    place item [] = [group (items ++ [item]) (keyOf item)]
  joins : ∀ {items item} groups, keyOf item ∈ items.map keyOf →
    place item (group items (keyOf item) :: groups) =
      group (items ++ [item]) (keyOf item) :: groups
  passes : ∀ {items item key} groups, keyOf item ≠ key →
    place item (group items key :: groups) = group items key :: place item groups
  keeps : ∀ {items item key}, keyOf item ≠ key → group (items ++ [item]) key = group items key

namespace Groups

variable {α κ β : Type} [BEq κ] [LawfulBEq κ] {keyOf : α → κ} {place : α → List β → List β}
  {group : List α → κ → β}

/-- Among the groups of distinct keys one takes the item, or a new one is begun. -/
theorem place_map (groups : Groups keyOf place group) {items : List α} {item : α} {keys : List κ}
    (hnodup : keys.Nodup) (hkeys : keyOf item ∈ keys ↔ keyOf item ∈ items.map keyOf) :
    place item (keys.map (group items)) =
      (if keyOf item ∈ keys then keys else keys ++ [keyOf item]).map
        (group (items ++ [item])) := by
  induction keys with
  | nil =>
      rw [if_neg List.not_mem_nil]
      exact groups.begins (mt hkeys.mpr List.not_mem_nil)
  | cons key rest ih =>
      obtain ⟨hfresh, hrest⟩ := List.nodup_cons.mp hnodup
      rw [List.map_cons]
      by_cases h : keyOf item = key
      -- the first group takes the item, and no other one has its key
      · subst h
        have hothers : rest.map (group (items ++ [item])) = rest.map (group items) := by
          refine List.map_congr_left fun other hother => groups.keeps ?_
          rintro rfl
          exact hfresh hother
        rw [if_pos List.mem_cons_self, groups.joins _ (hkeys.mp List.mem_cons_self),
          List.map_cons, hothers]
      · have hmem : keyOf item ∈ key :: rest ↔ keyOf item ∈ rest := by
          rw [List.mem_cons, or_iff_right h]
        rw [groups.passes _ h, ih hrest (hmem.symm.trans hkeys)]
        simp only [hmem]
        split
        · rw [List.map_cons, groups.keeps h]
        · rw [List.cons_append, List.map_cons, groups.keeps h]

/-- There is one group for each key, in order of first occurrence. -/
theorem foldl_eq (groups : Groups keyOf place group) (items : List α) :
    items.foldl (fun placed item => place item placed) [] =
      (items.map keyOf).eraseDups.map (group items) := by
  induction items using List.reverseRecOn with
  | nil => rfl
  | append_singleton items item ih =>
      have hkeys : keyOf item ∈ (items.map keyOf).eraseDups ↔ keyOf item ∈ items.map keyOf :=
        List.mem_eraseDups
      rw [List.foldl_append, List.foldl_cons, List.foldl_nil, ih,
        groups.place_map (nodup_eraseDups _) hkeys, List.map_append, List.map_singleton,
        eraseDups_concat]

end Groups

/-! ## Tables -/

namespace Table

variable {κ ν : Type} [Ord κ] [Std.LawfulEqOrd κ]

theorem nodup_keys (t : Table κ ν) : t.keys.Nodup := by
  refine t.ascending.imp ?_
  intro a b hlt heq
  rw [heq, Std.compare_self] at hlt
  cases hlt

variable [Std.TransOrd κ]

/-- The keys of a table are determined by which ones there are. -/
theorem keys_eq_of_mem_iff {t u : Table κ ν} (h : ∀ key, key ∈ t.keys ↔ key ∈ u.keys) :
    t.keys = u.keys := by
  have hperm : t.keys.Perm u.keys :=
    (List.perm_ext_iff_of_nodup t.nodup_keys u.nodup_keys).mpr h
  refine hperm.eq_of_pairwise ?_ t.ascending u.ascending
  intro a b _ _ hab hba
  rw [Std.OrientedCmp.gt_iff_lt.mpr hab] at hba
  cases hba

private theorem mem_keys_insert_iff {t : Table κ ν} {key k : κ} {value : ν} :
    k ∈ (t.insert key value).keys ↔ k = key ∨ k ∈ t.keys := by
  obtain ⟨entries, ascending⟩ := t
  show k ∈ (insertEntry key value entries).map Prod.fst ↔ k = key ∨ k ∈ entries.map Prod.fst
  constructor
  · exact mem_keys_insertEntry
  · clear ascending
    induction entries with
    | nil => simp [insertEntry]
    | cons entry rest ih =>
        unfold insertEntry
        split
        · simp
        · next heq =>
          rw [Std.compare_eq_iff_eq] at heq
          simp [heq]
        · simp only [List.map_cons, List.mem_cons]
          rintro (h | h | h)
          · exact .inr (ih (.inl h))
          · exact .inl h
          · exact .inr (ih (.inr h))

theorem mem_keys_ofList_iff {entries : List (κ × ν)} {k : κ} :
    k ∈ (ofList entries).keys ↔ k ∈ entries.map Prod.fst := by
  have hfold : ∀ t : Table κ ν,
      k ∈ (entries.foldl (fun t entry => t.insert entry.1 entry.2) t).keys ↔
        k ∈ entries.map Prod.fst ∨ k ∈ t.keys := by
    induction entries with
    | nil => simp
    | cons entry rest ih =>
        intro t
        rw [List.foldl_cons, ih, mem_keys_insert_iff, List.map_cons, List.mem_cons]
        tauto
  rw [ofList, hfold]
  simp [keys, empty]

/-- Of the entries of one key the last one counts. -/
theorem get?_ofList [DecidableEq κ] (entries : List (κ × ν)) (key : κ) :
    (ofList entries).get? key =
      (entries.reverse.find? fun entry => entry.1 == key).map Prod.snd := by
  induction entries using List.reverseRecOn with
  | nil => rfl
  | append_singleton entries entry ih =>
      have hadded : ofList (entries ++ [entry]) = (ofList entries).insert entry.1 entry.2 := by
        rw [ofList, List.foldl_append]
        rfl
      rw [hadded, get?_insert, ih, List.reverse_append, List.reverse_singleton,
        List.singleton_append]
      by_cases h : key = entry.1
      · simp [h]
      · simp [h, Ne.symm h]

/-- A table of entries with distinct keys has exactly these entries. -/
theorem get?_ofList_eq_some_iff [DecidableEq κ] {entries : List (κ × ν)}
    (hnodup : (entries.map Prod.fst).Nodup) {key : κ} {value : ν} :
    (ofList entries).get? key = some value ↔ (key, value) ∈ entries := by
  rw [get?_ofList, ← find?_eq_of_perm (List.reverse_perm entries).symm hnodup,
    Option.map_eq_some_iff]
  constructor
  · rintro ⟨entry, hentry, rfl⟩
    obtain ⟨hmem, rfl⟩ := (find?_eq_some_iff_of_nodup hnodup).mp hentry
    exact hmem
  · intro hmem
    exact ⟨_, (find?_eq_some_iff_of_nodup hnodup).mpr ⟨hmem, rfl⟩, rfl⟩

variable [DecidableEq κ]

omit [Std.TransOrd κ] in
theorem get?_of_mem_entries {t : Table κ ν} {entry : κ × ν} (h : entry ∈ t.entries) :
    t.get? entry.1 = some entry.2 := by
  rw [get?, find?_eq_some_of_nodup t.nodup_keys h, Option.map_some]

/-- Tables in which every key has the same value are the same. -/
theorem ext_get? {t u : Table κ ν} (h : ∀ key, t.get? key = u.get? key) : t = u := by
  have hkeys : t.keys = u.keys := by
    refine keys_eq_of_mem_iff fun key => not_iff_not.mp ?_
    rw [← get?_eq_none_iff, ← get?_eq_none_iff, h]
  have hentries : ∀ t : Table κ ν,
      t.entries = t.keys.filterMap fun key => (t.get? key).map fun value => (key, value) := by
    intro t
    rw [keys, List.filterMap_map]
    refine ((List.filterMap_congr fun entry hentry => ?_).trans List.filterMap_some).symm
    rw [Function.comp_apply, get?_of_mem_entries hentry, Option.map_some]
  apply ext
  rw [hentries t, hentries u, hkeys]
  simp only [h]

/-- The entries of a table make up that table again. -/
theorem ofList_entries (t : Table κ ν) : ofList t.entries = t := by
  refine ext_get? fun key => Option.ext fun value => ?_
  rw [get?_ofList_eq_some_iff t.nodup_keys]
  constructor
  · exact get?_of_mem_entries
  · intro h
    obtain ⟨entry, hfound, rfl⟩ := Option.map_eq_some_iff.mp h
    obtain ⟨hmem, rfl⟩ := (find?_eq_some_iff_of_nodup t.nodup_keys).mp hfound
    exact hmem

/-! ## Positions -/

namespace Locates

omit [Std.LawfulEqOrd κ] [Std.TransOrd κ]

variable {index : Table κ Nat} {places : List κ}

theorem mem_iff (located : index.Locates places) {key : κ} :
    key ∈ places ↔ ∃ i, index.get? key = some i := by
  rw [List.mem_iff_getElem?]
  exact exists_congr fun i => (located key i).symm

theorem get?_eq_none_iff (located : index.Locates places) {key : κ} :
    index.get? key = none ↔ key ∉ places := by
  rw [located.mem_iff, Option.eq_none_iff_forall_ne_some, not_exists]

/-- No key stands in two places, for the index says where. -/
theorem nodup (located : index.Locates places) : places.Nodup := by
  rw [List.nodup_iff_getElem?_ne_getElem?]
  intro i j hij hj heq
  obtain ⟨key, hkey⟩ : ∃ key, places[j]? = some key := ⟨_, List.getElem?_eq_getElem hj⟩
  have hsame : some i = some j := by
    rw [← (located key i).mpr (heq.trans hkey), (located key j).mpr hkey]
  exact (Nat.ne_of_lt hij) (Option.some.inj hsame)

/-- A list has one index only. -/
theorem unique [Std.LawfulEqOrd κ] [Std.TransOrd κ] {other : Table κ Nat}
    (located : index.Locates places) (located' : other.Locates places) : index = other := by
  refine ext_get? fun key => Option.ext fun i => ?_
  rw [located, located']

end Locates

end Table

end DesignTokens
