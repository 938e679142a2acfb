import DesignTokens.Proofs.Table
import DesignTokens.Sink.Basic

/-!
# Registration of sinks

An item is registered under a name unless the name is taken, so a registry holds under each name
what came first.  For sinks that are registered one after the other this says which names there are,
in which order (`Registry.names_registerAll`), and which sink has each name
(`Registry.get?_registerAll`).  A sink that comes too late might as well not have come
(`Registry.registerAll_of_alreadyPresent`).
-/

namespace DesignTokens

namespace Registry

variable {α : Type} {r : Registry α} {name : String} {item : α}

/-! ## Index and entries -/

theorem mem_names_iff : name ∈ r.names ↔ ∃ i, r.index.get? name = some i := r.indexed.mem_iff

/-- No name stands in two places. -/
theorem distinct (r : Registry α) : (r.entries.map Prod.fst).Nodup := r.indexed.nodup

theorem exists_entry_of_index {i : Nat} (h : r.index.get? name = some i) :
    ∃ item, r.entries[i]? = some (name, item) ∧ r.get? name = some item := by
  have hlt := lt_length_of_get?_index h
  have hname := (r.indexed name i).mp h
  rw [List.getElem?_map, List.getElem?_eq_getElem hlt, Option.map_some, Option.some.injEq] at hname
  refine ⟨r.entries[i].2, ?_, ?_⟩
  · rw [List.getElem?_eq_getElem hlt]
    exact congrArg some (Prod.ext hname rfl)
  · simp only [get?, position?, h, Option.pmap_some, Option.map_some, Fin.getElem_fin]

theorem get?_of_not_mem (h : name ∉ r.names) : r.get? name = none := by
  have hnone : r.index.get? name = none := r.indexed.get?_eq_none_iff.mpr h
  simp only [get?, position?, hnone, Option.pmap_none, Option.map_none]

/-- By the index those items are found that a search among the entries would find. -/
theorem mem_entries_iff : (name, item) ∈ r.entries ↔ r.get? name = some item := by
  by_cases hname : name ∈ r.names
  · obtain ⟨i, hi⟩ := mem_names_iff.mp hname
    obtain ⟨found, hentry, hfound⟩ := exists_entry_of_index hi
    have hmem := List.mem_of_getElem? hentry
    rw [hfound, Option.some.injEq]
    constructor
    · intro h
      exact congrArg Prod.snd (List.inj_on_of_nodup_map r.distinct hmem h rfl)
    · rintro rfl
      exact hmem
  · rw [get?_of_not_mem hname]
    exact iff_of_false (fun h => hname (List.mem_map_of_mem h)) nofun

theorem get?_eq_find? (r : Registry α) (name : String) :
    r.get? name = (r.entries.find? fun entry => entry.1 == name).map Prod.snd := by
  refine Option.ext fun item => ?_
  rw [← mem_entries_iff, Option.map_eq_some_iff]
  constructor
  · intro h
    exact ⟨_, (find?_eq_some_iff_of_nodup r.distinct).mpr ⟨h, rfl⟩, rfl⟩
  · rintro ⟨entry, hfound, rfl⟩
    obtain ⟨hentry, rfl⟩ := (find?_eq_some_iff_of_nodup r.distinct).mp hfound
    exact hentry

theorem isSome_get?_iff : (r.get? name).isSome ↔ name ∈ r.names := by
  rw [Option.isSome_iff_exists, names, List.mem_map]
  constructor
  · rintro ⟨item, h⟩
    exact ⟨_, mem_entries_iff.mpr h, rfl⟩
  · rintro ⟨⟨_, item⟩, h, rfl⟩
    exact ⟨item, mem_entries_iff.mp h⟩

theorem contains_iff : r.contains name ↔ name ∈ r.names := by
  rw [contains, Option.isSome_iff_exists, mem_names_iff]

/-! ## Registration -/

theorem register_of_mem (h : name ∈ r.names) : r.register name item = (.alreadyPresent, r) :=
  dif_pos (contains_iff.mpr h)

theorem register_of_not_mem (h : name ∉ r.names) : (r.register name item).1 = .added ∧
    (r.register name item).2.entries = r.entries ++ [(name, item)] := by
  rw [register, dif_neg (mt contains_iff.mp h)]
  exact ⟨rfl, rfl⟩

theorem register_eq_alreadyPresent_iff :
    (r.register name item).1 = .alreadyPresent ↔ name ∈ r.names := by
  by_cases h : name ∈ r.names
  · simp [h, register_of_mem h]
  · simp [h, (register_of_not_mem h).1]

theorem names_register :
    (r.register name item).2.names = if name ∈ r.names then r.names else r.names ++ [name] := by
  split
  · next h => rw [register_of_mem h]
  · next h =>
    rw [names, (register_of_not_mem h).2, List.map_append]
    rfl

/-- A new item is found under its name if nothing was found there before. -/
theorem get?_register (other : String) : (r.register name item).2.get? other =
    (r.get? other).or (if name = other then some item else none) := by
  by_cases h : name ∈ r.names
  · rw [register_of_mem h]
    by_cases hother : name = other
    · obtain ⟨⟨_, found⟩, hentry, rfl⟩ := List.mem_map.mp h
      rw [← hother, mem_entries_iff.mp hentry]
      rfl
    · rw [if_neg hother, Option.or_none]
  · rw [get?_eq_find?, (register_of_not_mem h).2, List.find?_append, Option.map_or, get?_eq_find?]
    congr 1
    by_cases hother : name = other
    · simp [hother]
    · simp [hother]

variable {σ : Type} [Sink σ]

/-- Register sinks one after the other. -/
def registerAll (r : Registry σ) (sinks : List σ) : Registry σ :=
  sinks.foldl (fun r sink => (r.registerSink sink).2) r

theorem registerAll_append (r : Registry σ) (front rest : List σ) :
    r.registerAll (front ++ rest) = (r.registerAll front).registerAll rest :=
  List.foldl_append

theorem registerAll_cons (r : Registry σ) (sink : σ) (rest : List σ) :
    r.registerAll (sink :: rest) = (r.registerSink sink).2.registerAll rest := rfl

/-- The names are registered in the order of their first occurrence. -/
theorem names_registerAll (r : Registry σ) (sinks : List σ) :
    (r.registerAll sinks).names = (r.names ++ sinks.map Sink.name).eraseDups := by
  induction sinks using List.reverseRecOn with
  | nil =>
      rw [List.map_nil, List.append_nil]
      exact (eraseDups_of_nodup r.distinct).symm
  | append_singleton sinks sink ih =>
      rw [registerAll_append, List.map_append, ← List.append_assoc, List.map_singleton,
        eraseDups_concat, ← ih]
      exact names_register

/-- Under each name there is the first sink that was registered for it. -/
theorem get?_registerAll (r : Registry σ) (sinks : List σ) (name : String) :
    (r.registerAll sinks).get? name =
      (r.get? name).or (sinks.find? fun sink => Sink.name sink == name) := by
  induction sinks generalizing r with
  | nil => exact (Option.or_none).symm
  | cons sink rest ih =>
      rw [registerAll_cons, ih, registerSink, get?_register, Option.or_assoc, List.find?_cons]
      by_cases h : Sink.name sink = name
      · simp [h]
      · rw [if_neg h, Option.none_or, beq_false_of_ne h]

/-- A sink that comes too late for its name is dropped: the others are registered as without it. -/
theorem registerAll_of_alreadyPresent {r : Registry σ} {front rest : List σ} {sink : σ}
    (h : ((r.registerAll front).registerSink sink).1 = .alreadyPresent) :
    r.registerAll (front ++ sink :: rest) = r.registerAll (front ++ rest) := by
  have hname : Sink.name sink ∈ (r.registerAll front).names := register_eq_alreadyPresent_iff.mp h
  rw [registerAll_append, registerAll_cons, registerSink, register_of_mem hname,
    registerAll_append]

end Registry

end DesignTokens
