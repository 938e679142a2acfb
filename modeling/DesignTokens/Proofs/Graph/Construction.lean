import DesignTokens.Graph.Selection
import DesignTokens.Proofs.Catalog

/-!
# What the checks of an export establish

`Graph.ofExport` stops at the first part that does not fit.  So it returns a graph exactly if all
ids are distinct, each collection has a mode, and every variable belongs to a collection and has
entries for modes of that collection only (`Sound`); `Graph.ofExport_eq_ok_iff` says so, and which
graph it is.

The parts go into catalogs, each of which is a table and the order of its keys, and a repeated id
shows by what an insertion gives back.  A catalog holds a list of items
(`Catalog.foldlM_eq_ok_iff`), which here is the list that is declared; and the entries of a
variable, which are inserted one at a time, make up the table that they were taken from
(`foldlM_addEntry_eq_ok_iff`).

With this a variable has an entry in some mode exactly if every context reads an entry of it
(`Sound.entry?_eq_none_iff`): the fall-back to the first mode with an entry finds any entry that
there is.
-/

namespace DesignTokens

namespace Graph

/-- Each variable fits the collection that it names. -/
structure Sound (g : Graph) : Prop where
  owned : ∀ v ∈ g.nodes, ∃ c, g.collection? v.collection = some c ∧
    ∀ mode ∈ v.entries.keys, c.hasMode mode

/-! ## Variables and collections -/

theorem nodup_ids (g : Graph) : (g.nodes.map Variable.id).Nodup := g.nodeIndex.nodup_values

/-- Each variable is found by its id. -/
theorem find?_id {g : Graph} {v : Variable} (hv : v ∈ g.nodes) : g.find? v.id = some v :=
  find?_eq_some_iff.mpr ⟨hv, rfl⟩

/-! ## Construction -/

/-- A collection is added if it has a mode and an id of its own. -/
theorem addCollection_eq_ok_iff {overrides : List KindOverride}
    {collections next : Catalog Collection.id} {declared : CollectionDeclaration} :
    addCollection overrides collections declared = .ok next ↔
      declared.modes ≠ [] ∧ collections.add? (collectionOf overrides declared) = some next := by
  unfold addCollection
  split
  · next hempty => simp [List.isEmpty_iff.mp hempty]
  · next hmodes =>
    rw [List.isEmpty_iff] at hmodes
    cases collections.add? (collectionOf overrides declared) with
    | none => simp
    | some added => simp [hmodes]

/-- Entries are taken over if each is for a mode of the collection. -/
theorem foldlM_addEntry_eq_ok_iff {collection : Collection} {path : String}
    {declared entries : Table ModeId Entry} :
    declared.entries.foldlM (addEntry collection path) .empty = .ok entries ↔
      (∀ mode ∈ declared.keys, collection.hasMode mode) ∧ entries = declared := by
  have hfold : ∀ (slots : List (ModeId × Entry)) start,
      slots.foldlM (addEntry collection path) start = .ok entries ↔
        (∀ mode ∈ slots.map Prod.fst, collection.hasMode mode) ∧
          entries = slots.foldl (fun t slot => t.insert slot.1 slot.2) start := by
    intro slots
    induction slots with
    | nil =>
        intro start
        rw [List.foldlM_nil, Except.pure_eq_ok_iff]
        exact ⟨fun h => ⟨nofun, h.symm⟩, fun h => h.2.symm⟩
    | cons slot rest ih =>
        intro start
        rw [List.foldlM_cons, Except.bind_eq_ok_iff, List.map_cons, List.forall_mem_cons, addEntry]
        split
        · next hmode => simp [ih, hmode]
        · next hforeign => simp [hforeign]
  rw [hfold, ← Table.ofList, Table.ofList_entries]
  rfl

/-- A variable is added if it fits its collection and has an id of its own. -/
theorem addVariable_eq_ok_iff {collections : Catalog Collection.id}
    {nodes next : Catalog Variable.id} {v : Variable} :
    addVariable collections nodes v = .ok next ↔
      (∃ c, collections.find? v.collection = some c ∧ ∀ mode ∈ v.entries.keys, c.hasMode mode) ∧
        nodes.add? v = some next := by
  unfold addVariable
  split
  · next hunknown => simp [hunknown]
  · next c hc =>
    rw [Except.bind_eq_ok_iff]
    constructor
    · rintro ⟨entries, hentries, hadded⟩
      obtain ⟨hmodes, rfl⟩ := foldlM_addEntry_eq_ok_iff.mp hentries
      refine ⟨⟨c, hc, hmodes⟩, ?_⟩
      split at hadded
      · cases hadded
      · next added h => rw [h, Except.ok.inj hadded]
    · rintro ⟨⟨owner, howner, hmodes⟩, hadded⟩
      obtain rfl : c = owner := Option.some.inj (hc.symm.trans howner)
      refine ⟨v.entries, foldlM_addEntry_eq_ok_iff.mpr ⟨hmodes, rfl⟩, ?_⟩
      rw [hadded]

theorem foldlM_addCollection_eq_ok_iff {overrides : List KindOverride}
    {declarations : List CollectionDeclaration} {collections : Catalog Collection.id} :
    declarations.foldlM (addCollection overrides) .empty = .ok collections ↔
      (∀ declared ∈ declarations, declared.modes ≠ []) ∧
        (declarations.map CollectionDeclaration.id).Nodup ∧
        collections.values = declarations.map (collectionOf overrides) := by
  apply Catalog.foldlM_eq_ok_iff
  · intro collections declared next
    exact addCollection_eq_ok_iff
  · intro declared
    rfl

theorem foldlM_addVariable_eq_ok_iff {collections : Catalog Collection.id}
    {declarations : List Variable} {nodes : Catalog Variable.id} :
    declarations.foldlM (addVariable collections) .empty = .ok nodes ↔
      (∀ v ∈ declarations, ∃ c, collections.find? v.collection = some c ∧
        ∀ mode ∈ v.entries.keys, c.hasMode mode) ∧
        (declarations.map Variable.id).Nodup ∧ nodes.values = declarations.map id := by
  apply Catalog.foldlM_eq_ok_iff
  · intro nodes v next
    exact addVariable_eq_ok_iff
  · intro v
    rfl

theorem ofExport_eq_ok {source : Export} {overrides : List KindOverride} {g : Graph}
    (h : ofExport source overrides = .ok g) :
    source.collections.foldlM (addCollection overrides) .empty = .ok g.collectionIndex ∧
      source.nodes.foldlM (addVariable g.collectionIndex) .empty = .ok g.nodeIndex ∧
        g.textStyles = source.textStyles ∧ g.effectStyles = source.effectStyles := by
  unfold ofExport at h
  obtain ⟨collections, hcollections, h⟩ := Except.bind_eq_ok_iff.mp h
  obtain ⟨nodes, hnodes, h⟩ := Except.bind_eq_ok_iff.mp h
  obtain rfl := Except.pure_eq_ok_iff.mp h
  exact ⟨hcollections, hnodes, rfl, rfl⟩

/-- The text styles play no part in what is checked. -/
theorem ofExport_withTextStyles {source : Export} {overrides : List KindOverride} {g : Graph}
    (built : ofExport source overrides = .ok g) (styles : List TextStyle) :
    ofExport { source with textStyles := styles } overrides =
      .ok { g with textStyles := styles } := by
  obtain ⟨hcollections, hnodes, -, heffects⟩ := ofExport_eq_ok built
  rw [ofExport, hcollections, Except.ok_bind, hnodes, Except.ok_bind, heffects]
  rfl

/-- Building succeeds exactly if the ids of the collections and those of the variables are distinct,
each collection has a mode, and each variable fits its collection.  The graph lists what is
declared, as it is declared. -/
theorem ofExport_eq_ok_iff {source : Export} {overrides : List KindOverride} {g : Graph} :
    ofExport source overrides = .ok g ↔
      (∀ declared ∈ source.collections, declared.modes ≠ []) ∧
        (source.collections.map CollectionDeclaration.id).Nodup ∧
        (source.nodes.map Variable.id).Nodup ∧ g.Sound ∧
        g.collections = source.collections.map (collectionOf overrides) ∧
        g.nodes = source.nodes ∧ g.textStyles = source.textStyles ∧
        g.effectStyles = source.effectStyles := by
  constructor
  · intro built
    obtain ⟨hadded, hchecked, htexts, heffects⟩ := ofExport_eq_ok built
    obtain ⟨hmodes, hdistinct, hcollections⟩ := foldlM_addCollection_eq_ok_iff.mp hadded
    obtain ⟨hfits, hnodup, hnodes⟩ := foldlM_addVariable_eq_ok_iff.mp hchecked
    have hnodes : g.nodes = source.nodes := hnodes.trans (List.map_id _)
    exact ⟨hmodes, hdistinct, hnodup, ⟨hnodes ▸ hfits⟩, hcollections, hnodes, htexts, heffects⟩
  · rintro ⟨hmodes, hdistinct, hnodup, sound, hcollections, hnodes, htexts, heffects⟩
    have hadded := foldlM_addCollection_eq_ok_iff.mpr ⟨hmodes, hdistinct, hcollections⟩
    have hfits := hnodes ▸ sound.owned
    have hchecked := foldlM_addVariable_eq_ok_iff.mpr
      ⟨hfits, hnodup, hnodes.trans (List.map_id _).symm⟩
    rw [ofExport, hadded, Except.ok_bind, hchecked, ← htexts, ← heffects]
    rfl

section

variable {source : Export} {overrides : List KindOverride} {g : Graph}
  (built : ofExport source overrides = .ok g)

include built

/-- A graph has the collections that its export declares, in order. -/
theorem collections_of_ofExport :
    g.collections = source.collections.map (collectionOf overrides) := by
  obtain ⟨-, -, -, -, hcollections, -⟩ := ofExport_eq_ok_iff.mp built
  exact hcollections

/-- A graph has the variables of its export, in order. -/
theorem nodes_of_ofExport : g.nodes = source.nodes := by
  obtain ⟨-, -, -, -, -, hnodes, -⟩ := ofExport_eq_ok_iff.mp built
  exact hnodes

theorem sound_of_ofExport : g.Sound := by
  obtain ⟨-, -, -, sound, -⟩ := ofExport_eq_ok_iff.mp built
  exact sound

theorem modes_ne_nil_of_ofExport {c : Collection} (hc : c ∈ g.collections) : c.modes ≠ [] := by
  obtain ⟨hmodes, -, -, -, hcollections, -⟩ := ofExport_eq_ok_iff.mp built
  rw [hcollections] at hc
  obtain ⟨declared, hdeclared, rfl⟩ := List.mem_map.mp hc
  exact hmodes declared hdeclared

end

end Graph

/-! ## Which variables have something to read -/

theorem Collection.hasMode_iff {c : Collection} {mode : ModeId} :
    c.hasMode mode ↔ ∃ m ∈ c.modes, m.id = mode := by
  simp [hasMode, modeById?]

theorem Collection.select?_eq_none_iff {c : Collection} {v : Variable} {context : Context} :
    c.select? v context = none ↔
      (∀ mode ∈ c.preferredMode? context, v.entry? mode = none) ∧
        ∀ m ∈ c.modes, v.entry? m.id = none := by
  simp [select?, firstEntry?]

/-- In a sound graph a collection finds nothing to read in a variable of its own only if that
variable has no entry in any mode. -/
theorem Graph.Sound.select?_eq_none_iff {g : Graph} (sound : g.Sound) {v : Variable}
    (hv : v ∈ g.nodes) {c : Collection} (hc : g.collection? v.collection = some c)
    (context : Context) : c.select? v context = none ↔ v.entries.keys = [] := by
  obtain ⟨owner, howner, hmodes⟩ := sound.owned v hv
  obtain rfl : owner = c := Option.some.inj (howner.symm.trans hc)
  rw [Collection.select?_eq_none_iff]
  constructor
  · rintro ⟨-, hnone⟩
    refine List.eq_nil_iff_forall_not_mem.mpr fun mode hmode => ?_
    obtain ⟨m, hm, rfl⟩ := Collection.hasMode_iff.mp (hmodes mode hmode)
    exact Table.get?_eq_none_iff.mp (hnone m hm) hmode
  · intro hempty
    have hnone : ∀ mode, v.entry? mode = none := by
      intro mode
      exact Table.get?_eq_none_iff.mpr (by simp [hempty])
    exact ⟨fun mode _ => hnone mode, fun m _ => hnone m.id⟩

/-- In a sound graph a context finds nothing to read in a variable only if that variable has no
entry in any mode. -/
theorem Graph.Sound.entry?_eq_none_iff {g : Graph} (sound : g.Sound) {v : Variable}
    (hv : v ∈ g.nodes) (context : Context) :
    g.entry? context v = none ↔ v.entries.keys = [] := by
  obtain ⟨c, hc, -⟩ := sound.owned v hv
  have hentry : g.entry? context v = none ↔ c.select? v context = none := by
    simp [Graph.entry?, hc]
  rw [hentry, sound.select?_eq_none_iff hv hc]

/-! ## A small graph -/

namespace Sample

/-- The sizes, a primitive layer. -/
def sizes : Collection := ⟨⟨"sizes"⟩, "_Sizes", .primitive, [⟨⟨"value"⟩, "Value"⟩]⟩

/-- The breakpoints, a layer with a small and a large mode. -/
def breakpoints : Collection :=
  ⟨⟨"breakpoints"⟩, "Breakpoints", .semantic .breakpoint,
    [⟨⟨"sm"⟩, "Small"⟩, ⟨⟨"lg"⟩, "Large"⟩]⟩

def sixteen : Variable :=
  ⟨⟨"sixteen"⟩, "Size/16", sizes.id, .float,
    Table.empty.insert ⟨"value"⟩ (.literal (.number 16))⟩

/-- At the large breakpoint `body` and `heading` are aliases of each other. -/
def body : Variable :=
  ⟨⟨"body"⟩, "Text/body", breakpoints.id, .float,
    (Table.empty.insert ⟨"sm"⟩ (.alias sixteen.id)).insert ⟨"lg"⟩ (.alias ⟨"heading"⟩)⟩

def heading : Variable :=
  ⟨⟨"heading"⟩, "Text/heading", breakpoints.id, .float,
    Table.empty.insert ⟨"sm"⟩ (.alias body.id)⟩

def source : Export where
  collections := [sizes, breakpoints].map fun c => ⟨c.id, c.name, c.modes⟩
  nodes := [sixteen, body, heading]

def graph : Graph := ⟨.ofList [sizes, breakpoints], .ofList [sixteen, body, heading], [], []⟩

theorem ofExport_source : Graph.ofExport source [] = .ok graph := rfl

end Sample

end DesignTokens
