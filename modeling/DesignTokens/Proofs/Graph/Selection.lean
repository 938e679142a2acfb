import DesignTokens.Proofs.Graph.Construction

/-!
# Which entry is read

A context names a mode to a collection by the brand, by an id on the axis of the collection, or not
at all, as the kind of the collection has it (`CollectionKind.Names`).  The collection prefers the
first mode that is named, and its first mode if none is (`Collection.Prefers`).  It reads the entry
of a variable in the preferred mode, and if there is none, the first entry that it comes to in the
order of its modes (`Collection.Reads`).

A collection of a graph has a mode, so it prefers one and only one, and the entries of its variables
are all in its modes.  Hence it reads an entry of each of them that has any
(`Graph.select?_of_ofExport`).
-/

namespace DesignTokens

/-- A context names a mode to a collection of some kind. -/
def CollectionKind.Names (kind : CollectionKind) (context : Context) (m : Mode) : Prop :=
  match kind with
  | .brandMapping _ => context.brandName = some m.name
  | .semantic axis => context.mode? axis = some m.id
  | .density => context.density = some m.id
  | .primitive | .component => False

instance (kind : CollectionKind) (context : Context) (m : Mode) :
    Decidable (kind.Names context m) :=
  match kind with
  | .brandMapping _ => inferInstanceAs (Decidable (context.brandName = some m.name))
  | .semantic axis => inferInstanceAs (Decidable (context.mode? axis = some m.id))
  | .density => inferInstanceAs (Decidable (context.density = some m.id))
  | .primitive | .component => inferInstanceAs (Decidable False)

namespace Collection

variable {c : Collection} {context : Context} {v : Variable} {m p : Mode} {selection : Selection}

/-! ## Preferred modes -/

/-- A collection prefers a mode in a context. -/
inductive Prefers (c : Collection) (context : Context) : Mode → Prop where
  /-- Of the modes that the context names the first is preferred. -/
  | named {earlier later m} (hmodes : c.modes = earlier ++ m :: later)
      (hnamed : c.kind.Names context m)
      (hearlier : ∀ other ∈ earlier, ¬ c.kind.Names context other) : Prefers c context m
  /-- If the context names none of the modes, the first of them all is preferred. -/
  | first {later m} (hmodes : c.modes = m :: later)
      (hunnamed : ∀ other ∈ c.modes, ¬ c.kind.Names context other) : Prefers c context m

/-- To look up the key that is asked for, if any is, is to look for an item whose key is. -/
theorem bind_find?_eq {α κ : Type} [DecidableEq κ] (asked : Option κ) (items : List α)
    (key : α → κ) : (asked.bind fun k => items.find? fun item => key item == k) =
      items.find? fun item => asked = some (key item) := by
  cases asked with
  | none => exact (List.find?_eq_none.mpr (by simp)).symm
  | some k => simp [eq_comm, Bool.beq_eq_decide_eq]

private theorem chosenMode?_eq_find? (c : Collection) (context : Context) :
    c.chosenMode? context = c.modes.find? fun m => c.kind.Names context m := by
  have hnone : none = c.modes.find? fun _ => decide False :=
    (List.find?_eq_none.mpr (by simp)).symm
  unfold chosenMode? CollectionKind.Names
  cases c.kind with
  | brandMapping axis => exact bind_find?_eq _ _ _
  | semantic axis => exact bind_find?_eq _ _ _
  | density => exact bind_find?_eq _ _ _
  | primitive => exact hnone
  | component => exact hnone

/-- The preferred mode is the one that is chosen, or else the default. -/
theorem prefers_iff : c.Prefers context m ↔ (c.chosenMode? context).or c.defaultMode? = some m := by
  rw [Option.or_eq_some_iff, chosenMode?_eq_find?, List.find?_eq_some_iff_append,
    List.find?_eq_none, defaultMode?]
  constructor
  · intro h
    cases h with
    | named hmodes hnamed hearlier =>
        exact .inl ⟨by simpa using hnamed, _, _, hmodes, by simpa using hearlier⟩
    | first hmodes hunnamed => exact .inr ⟨by simpa using hunnamed, by simp [hmodes]⟩
  · rintro (⟨hnamed, earlier, later, hmodes, hearlier⟩ | ⟨hunnamed, hfirst⟩)
    · exact .named hmodes (by simpa using hnamed) (by simpa using hearlier)
    · obtain ⟨later, hmodes⟩ := List.head?_eq_some_iff.mp hfirst
      exact .first hmodes (by simpa using hunnamed)

theorem Prefers.mem (h : c.Prefers context m) : m ∈ c.modes := by
  cases h with
  | named hmodes => simp [hmodes]
  | first hmodes => simp [hmodes]

theorem Prefers.eq (h : c.Prefers context m) (h' : c.Prefers context p) : m = p :=
  Option.some.inj ((prefers_iff.mp h).symm.trans (prefers_iff.mp h'))

private theorem exists_prefers (hmodes : c.modes ≠ []) (context : Context) :
    ∃ m, c.Prefers context m := by
  obtain ⟨first, later, hcons⟩ := List.exists_cons_of_ne_nil hmodes
  have hdefault : c.defaultMode? = some first := by rw [defaultMode?, hcons, List.head?_cons]
  cases hchosen : c.chosenMode? context with
  | none => exact ⟨first, prefers_iff.mpr (by rw [hchosen, Option.none_or, hdefault])⟩
  | some m => exact ⟨m, prefers_iff.mpr (by rw [hchosen, Option.some_or])⟩

private theorem Prefers.preferredMode?_eq (h : c.Prefers context m) :
    c.preferredMode? context = some m.id := by
  rw [preferredMode?, prefers_iff.mp h, Option.map_some]

/-! ## Entries -/

/-- A collection reads an entry of a variable in a context. -/
inductive Reads (c : Collection) (context : Context) (v : Variable) : Selection → Prop where
  /-- The entry of the preferred mode is read. -/
  | preferred {p entry} (hprefers : c.Prefers context p) (hentry : v.entry? p.id = some entry) :
      Reads c context v ⟨p.id, entry, false⟩
  /-- If there is none, that of the first mode which has one is read. -/
  | fallBack {p earlier later m entry} (hprefers : c.Prefers context p)
      (hempty : v.entry? p.id = none) (hmodes : c.modes = earlier ++ m :: later)
      (hentry : v.entry? m.id = some entry)
      (hearlier : ∀ other ∈ earlier, v.entry? other.id = none) :
      Reads c context v ⟨m.id, entry, true⟩

private theorem firstEntry?_eq_some_iff : c.firstEntry? v = some selection ↔
    ∃ earlier m later, c.modes = earlier ++ m :: later ∧
      (∃ entry, v.entry? m.id = some entry ∧ ⟨m.id, entry, true⟩ = selection) ∧
      ∀ other ∈ earlier, v.entry? other.id = none := by
  unfold firstEntry?
  rw [List.findSome?_eq_some_iff]
  simp only [Option.map_eq_some_iff, Option.map_eq_none_iff]

private theorem Prefers.select?_eq (h : c.Prefers context p) (v : Variable) : c.select? v context =
    ((v.entry? p.id).map fun entry => ⟨p.id, entry, false⟩).or (c.firstEntry? v) := by
  rw [select?, h.preferredMode?_eq, Option.bind_some]

theorem select?_eq_some_iff_reads (hmodes : c.modes ≠ []) :
    c.select? v context = some selection ↔ c.Reads context v selection := by
  obtain ⟨p, hprefers⟩ := exists_prefers hmodes context
  rw [hprefers.select?_eq, Option.or_eq_some_iff, Option.map_eq_some_iff, Option.map_eq_none_iff,
    firstEntry?_eq_some_iff]
  constructor
  · rintro (⟨entry, hentry, rfl⟩ |
      ⟨hempty, earlier, m, later, hcons, ⟨entry, hentry, rfl⟩, hearlier⟩)
    · exact .preferred hprefers hentry
    · exact .fallBack hprefers hempty hcons hentry hearlier
  · intro h
    cases h with
    | preferred hprefers' hentry =>
        obtain rfl := hprefers.eq hprefers'
        exact .inl ⟨_, hentry, rfl⟩
    | fallBack hprefers' hempty hcons hentry hearlier =>
        obtain rfl := hprefers.eq hprefers'
        exact .inr ⟨hempty, _, _, _, hcons, ⟨_, hentry, rfl⟩, hearlier⟩

/-- What is read is an entry of the variable, for a mode of the collection. -/
theorem Reads.entry?_eq (h : c.Reads context v selection) :
    (∃ m ∈ c.modes, m.id = selection.mode) ∧ v.entry? selection.mode = some selection.entry := by
  cases h with
  | preferred hprefers hentry => exact ⟨⟨_, hprefers.mem, rfl⟩, hentry⟩
  | fallBack hprefers hempty hmodes hentry => exact ⟨⟨_, by simp [hmodes], rfl⟩, hentry⟩

end Collection

/-- **Choosing an entry.**  Each variable of a graph that is made from an export belongs to a
collection, which finds nothing to read in it only if it has no entry at all.  Otherwise, in
whatever context, it reads one entry of the variable, for a mode of its own: that of the preferred
mode, and only if there is none, by a fall-back, that of the first mode with one. -/
theorem Graph.select?_of_ofExport {source : Export} {overrides : List KindOverride} {g : Graph}
    (built : ofExport source overrides = .ok g) {v : Variable} (hv : v ∈ g.nodes)
    (context : Context) :
    ∃ c, g.collection? v.collection = some c ∧
      (c.select? v context = none ↔ v.entries.keys = []) ∧
      ∀ selection, (c.select? v context = some selection ↔ c.Reads context v selection) ∧
        (c.select? v context = some selection →
          (∃ m ∈ c.modes, m.id = selection.mode) ∧
            v.entry? selection.mode = some selection.entry) := by
  have sound := sound_of_ofExport built
  obtain ⟨c, hc, -⟩ := sound.owned v hv
  have hmodes := modes_ne_nil_of_ofExport built (collection?_eq_some_iff.mp hc).1
  refine ⟨c, hc, sound.select?_eq_none_iff hv hc context, fun selection => ⟨?_, ?_⟩⟩
  · exact Collection.select?_eq_some_iff_reads hmodes
  · intro hselect
    exact ((Collection.select?_eq_some_iff_reads hmodes).mp hselect).entry?_eq

/-! ## A fall-back -/

namespace Sample

def onLarge : Context := { breakpoint := some ⟨"lg"⟩ }

/-- The breakpoints have no such mode. -/
def onHuge : Context := { breakpoint := some ⟨"xl"⟩ }

/-- The heading has an entry for the small breakpoint only.  For the large one it is read by a
fall-back, and for one that does not exist it is read as the default. -/
theorem selection_of_heading :
    Graph.ofExport source [] = .ok graph ∧ heading ∈ graph.nodes ∧
      heading.entries.keys ≠ [] ∧
      breakpoints.select? heading onLarge = some ⟨⟨"sm"⟩, .alias body.id, true⟩ ∧
      breakpoints.select? heading onHuge = some ⟨⟨"sm"⟩, .alias body.id, false⟩ := by
  have hmem : heading ∈ graph.nodes := by decide
  refine ⟨ofExport_source, hmem, by decide, ?_, ?_⟩
  · obtain ⟨c, hc, -, hreads⟩ := Graph.select?_of_ofExport ofExport_source hmem onLarge
    obtain rfl : breakpoints = c := Option.some.inj hc
    have hsecond : breakpoints.modes = [⟨⟨"sm"⟩, "Small"⟩] ++ ⟨⟨"lg"⟩, "Large"⟩ :: [] := rfl
    have hfirst : breakpoints.modes = [] ++ ⟨⟨"sm"⟩, "Small"⟩ :: [⟨⟨"lg"⟩, "Large"⟩] := rfl
    have hprefers : breakpoints.Prefers onLarge ⟨⟨"lg"⟩, "Large"⟩ :=
      .named hsecond rfl (by decide)
    exact (hreads _).1.mpr (.fallBack hprefers rfl hfirst rfl nofun)
  · obtain ⟨c, hc, -, hreads⟩ := Graph.select?_of_ofExport ofExport_source hmem onHuge
    obtain rfl : breakpoints = c := Option.some.inj hc
    have hprefers : breakpoints.Prefers onHuge ⟨⟨"sm"⟩, "Small"⟩ := .first rfl (by decide)
    exact (hreads _).1.mpr (.preferred hprefers rfl)

end Sample

end DesignTokens
