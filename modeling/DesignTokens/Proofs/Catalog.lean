import DesignTokens.Table.Catalog
import DesignTokens.Proofs.Except
import DesignTokens.Proofs.Table

/-!
# What catalogs hold

A catalog is known by the list of its items (`Catalog.ext_values`), which have distinct keys.  So it
can be treated as that list: to look a key up is to search the list for it (`Catalog.find?_eq`), and
to add an item with a new key is to put it behind the others (`Catalog.add?_eq_some_iff`).

Listing skips keys that are not in the table.  As the order names no such key, it skips none
(`Catalog.map_key_values`).
-/

namespace DesignTokens.Catalog

variable {κ ν : Type} [Ord κ] [DecidableEq κ] {key : ν → κ} {c d : Catalog key} {item : ν}

/-! ## Items and their keys -/

/-- Every key in the order has an item. -/
theorem map_key_values (c : Catalog key) : c.values.map key = c.order := by
  rw [values, List.map_filterMap]
  refine (List.filterMap_congr fun k hk => ?_).trans List.filterMap_some
  obtain ⟨item, hitem⟩ := Option.isSome_iff_exists.mp ((c.listed.mem_order_iff k).mp hk)
  rw [hitem, Option.map_some, c.listed.key_eq k item hitem]

theorem nodup_values (c : Catalog key) : (c.values.map key).Nodup :=
  c.map_key_values ▸ c.listed.nodup

/-- To look a key up is to search the items for it. -/
theorem find?_eq (c : Catalog key) (k : κ) :
    c.find? k = c.values.find? fun item => key item == k := by
  refine Option.ext fun item => ?_
  rw [find?_eq_some_iff, find?_eq_some_iff_of_nodup c.nodup_values]

/-- A key is free if no item bears it. -/
theorem find?_eq_none_iff {k : κ} : c.find? k = none ↔ k ∉ c.values.map key := by
  rw [find?_eq, List.find?_eq_none]
  simp

variable [Std.TransOrd κ] [Std.LawfulEqOrd κ]

/-- Catalogs with the same items in the same order are the same. -/
theorem ext_values (h : c.values = d.values) : c = d := by
  have horder : c.order = d.order := by
    rw [← c.map_key_values, ← d.map_key_values, h]
  have hitems : c.items = d.items := by
    refine Table.ext_get? fun k => ?_
    show c.find? k = d.find? k
    rw [find?_eq, find?_eq, h]
  cases c
  cases d
  cases horder
  cases hitems
  rfl

/-! ## One more item -/

private theorem add?_eq_none (taken : key item ∈ c.values.map key) : c.add? item = none := by
  have hfound : (c.find? (key item)).isSome := by
    rw [Option.isSome_iff_ne_none, ne_eq, find?_eq_none_iff, not_not]
    exact taken
  exact dif_pos hfound

/-- The items from before are found as they were, and the new one is found behind them. -/
theorem exists_add? (free : key item ∉ c.values.map key) :
    ∃ d, c.add? item = some d ∧ d.values = c.values ++ [item] := by
  have hmissing : ¬ (c.items.get? (key item)).isSome := by
    rw [← find?_eq_none_iff, ← Option.not_isSome_iff_eq_none] at free
    exact free
  refine ⟨_, dif_neg hmissing, ?_⟩
  show (c.order ++ [key item]).filterMap (c.items.insert (key item) item).get? = c.values ++ [item]
  have hlast : [key item].filterMap (c.items.insert (key item) item).get? = [item] := by
    simp [Table.get?_insert]
  rw [List.filterMap_append, hlast]
  refine congrArg (· ++ [item]) (List.filterMap_congr fun k hk => ?_)
  rw [Table.get?_insert, if_neg]
  rintro rfl
  exact hmissing ((c.listed.mem_order_iff _).mp hk)

/-- An item with a new key comes behind the others. -/
theorem add?_eq_some_iff :
    c.add? item = some d ↔ key item ∉ c.values.map key ∧ d.values = c.values ++ [item] := by
  by_cases h : key item ∈ c.values.map key
  · simp [add?_eq_none h, h]
  · obtain ⟨next, hadded, hvalues⟩ := exists_add? h
    rw [hadded, Option.some.injEq, and_iff_right h, ← hvalues]
    exact ⟨fun heq => by rw [heq], fun heq => (ext_values heq).symm⟩

/-! ## Catalogs of lists -/

/-- The catalog of a list of items; of several items with one key the first counts. -/
def ofList (items : List ν) : Catalog key :=
  items.foldl (fun c item => (c.add? item).getD c) .empty

/-- Items with distinct keys can be taken into a catalog. -/
theorem values_ofList {items : List ν} (hnodup : (items.map key).Nodup) :
    (ofList items : Catalog key).values = items := by
  induction items using List.reverseRecOn with
  | nil => rfl
  | append_singleton items item ih =>
      rw [List.map_append, List.map_singleton, ← List.concat_eq_append, List.nodup_concat] at hnodup
      have hvalues := ih hnodup.2
      obtain ⟨d, hadded, hlast⟩ := exists_add? (hvalues.symm ▸ hnodup.1)
      rw [ofList, List.foldl_append, List.foldl_cons, List.foldl_nil, ← ofList, hadded,
        Option.getD_some, hlast, hvalues]

/-- A fold whose steps make items of what fits and add them to a catalog succeeds if everything fits
and the items have distinct keys.  Then the catalog lists what is made, in order. -/
theorem foldlM_eq_ok_iff {α ε : Type} {f : Catalog key → α → Except ε (Catalog key)} {made : α → ν}
    {fits : α → Prop} {keyOf : α → κ}
    (hstep : ∀ c source d, f c source = .ok d ↔ fits source ∧ c.add? (made source) = some d)
    (hkey : ∀ source, key (made source) = keyOf source) {sources : List α} :
    sources.foldlM f .empty = .ok c ↔ (∀ source ∈ sources, fits source) ∧
      (sources.map keyOf).Nodup ∧ c.values = sources.map made := by
  induction sources using List.reverseRecOn generalizing c with
  | nil =>
      rw [List.foldlM_nil, Except.pure_eq_ok_iff]
      constructor
      · rintro rfl
        exact ⟨nofun, .nil, rfl⟩
      · rintro ⟨-, -, h⟩
        exact ext_values h.symm
  | append_singleton sources source ih =>
      -- the last item decides: the sources in front of it are the induction hypothesis
      have hkeys : (sources.map made).map key = sources.map keyOf := by
        simp [Function.comp_def, hkey]
      rw [List.foldlM_append, Except.bind_eq_ok_iff, List.forall_mem_append,
        List.forall_mem_singleton, List.map_append, List.map_append, List.map_singleton,
        List.map_singleton, ← List.concat_eq_append, List.nodup_concat]
      constructor
      · rintro ⟨before, hbefore, hlast⟩
        obtain ⟨hfits, hnodup, hvalues⟩ := ih.mp hbefore
        rw [List.foldlM_cons, Except.bind_eq_ok_iff] at hlast
        obtain ⟨next, hnext, hdone⟩ := hlast
        obtain rfl := Except.pure_eq_ok_iff.mp hdone
        obtain ⟨hsource, hadded⟩ := (hstep _ _ _).mp hnext
        obtain ⟨hfresh, hmade⟩ := add?_eq_some_iff.mp hadded
        rw [hvalues, hkeys, hkey] at hfresh
        exact ⟨⟨hfits, hsource⟩, ⟨hfresh, hnodup⟩, hvalues ▸ hmade⟩
      · rintro ⟨⟨hfits, hsource⟩, ⟨hfresh, hnodup⟩, hmade⟩
        have hvalues : (ofList (sources.map made) : Catalog key).values = sources.map made :=
          values_ofList (hkeys ▸ hnodup)
        refine ⟨ofList (sources.map made), ih.mpr ⟨hfits, hnodup, hvalues⟩, ?_⟩
        have hadded : (ofList (sources.map made)).add? (made source) = some c :=
          add?_eq_some_iff.mpr ⟨by rwa [hvalues, hkeys, hkey], hvalues.symm ▸ hmade⟩
        rw [List.foldlM_cons, (hstep _ _ _).mpr ⟨hsource, hadded⟩]
        rfl

end DesignTokens.Catalog
