import DesignTokens.Proofs.Graph.Comparison

/-!
# The axes that a chain is read by

A collection chooses its mode by the name of the brand, by one axis of the context, or not at all,
and its kind says which.  Two contexts that agree on this read the same entry of each variable of
the collection (`Graph.entry?_congr`).

So to know what a variable comes to, it is enough to know the context as far as the collections of
its chain ask for it (`Graph.resolve_eq_of_agrees`).
-/

namespace DesignTokens

/-! ## Choosing a mode -/

/-- Two contexts agree on what a collection of a kind chooses its mode by. -/
structure Context.Agrees (context context' : Context) (kind : CollectionKind) : Prop where
  byName : ∀ axis, kind = .brandMapping axis → context.brandName = context'.brandName
  byMode : ∀ axis, kind.modeAxis? = some axis → context.mode? axis = context'.mode? axis

variable {context context' : Context}

theorem Collection.chosenMode?_congr {c : Collection} (agrees : context.Agrees context' c.kind) :
    c.chosenMode? context = c.chosenMode? context' := by
  unfold chosenMode?
  cases hkind : c.kind with
  | brandMapping axis => simp only [agrees.byName axis hkind]
  | semantic axis =>
      have hmode := agrees.byMode axis (by rw [hkind]; rfl)
      simp only [CollectionKind.modeAxis?, Option.bind_some, hmode]
  | density =>
      have hmode := agrees.byMode .density (by rw [hkind]; rfl)
      simp only [CollectionKind.modeAxis?, Option.bind_some, hmode]
  | primitive => rfl
  | component => rfl

private theorem Collection.select?_congr {c : Collection} {v : Variable}
    (agrees : context.Agrees context' c.kind) : c.select? v context = c.select? v context' := by
  rw [select?, select?, preferredMode?, preferredMode?, chosenMode?_congr agrees]

namespace Graph

variable {g : Graph} {id : VariableId}

theorem entry?_congr {v : Variable}
    (agrees : ∀ kind, g.kind? v = some kind → context.Agrees context' kind) :
    g.entry? context v = g.entry? context' v := by
  unfold entry?
  cases hc : g.collection? v.collection with
  | none => rfl
  | some c =>
      have hkind : g.kind? v = some c.kind := by rw [kind?, hc, Option.map_some]
      rw [Option.bind_some, Option.bind_some, Collection.select?_congr (agrees _ hkind)]

/-! ## What a chain asks of a context -/

/-- Some variable of a chain is in a brand mapping, which chooses its mode by name. -/
def AsksBrand (g : Graph) (chain : Trail) : Prop :=
  ∃ hop ∈ chain, ∃ v axis, g.find? hop = some v ∧ g.kind? v = some (.brandMapping axis)

/-- Some variable of a chain is in a collection that chooses its mode by an axis. -/
def AsksAxis (g : Graph) (chain : Trail) (axis : Axis) : Prop :=
  ∃ hop ∈ chain, ∃ v kind, g.find? hop = some v ∧ g.kind? v = some kind ∧
    kind.modeAxis? = some axis

/-- **Resolution depends only on the axes that its chain is read by.**  If a second context has the
same brand wherever a brand mapping is on the chain, and the same mode on each axis by which some
collection on the chain chooses, then the variable comes there to the same value along the same
chain with the same findings, and it has the same endpoint with the same findings, wherever walks
stop. -/
theorem resolve_eq_of_agrees
    (hbrand : g.AsksBrand (g.resolve context id).value.chain →
      context.brandName = context'.brandName)
    (hmode : ∀ axis, g.AsksAxis (g.resolve context id).value.chain axis →
      context.mode? axis = context'.mode? axis) :
    g.resolve context id = g.resolve context' id ∧
      ∀ stops, g.endpoint context stops id = g.endpoint context' stops id := by
  have same : g.SameEntries g context context' (g.resolve context id).value.chain := by
    intro hop hhop v found
    apply entry?_congr
    intro kind hkind
    constructor
    · intro axis hmapping
      exact hbrand ⟨hop, hhop, v, axis, found, hmapping ▸ hkind⟩
    · intro axis haxis
      exact hmode axis ⟨hop, hhop, v, kind, found, hkind, haxis⟩
  have hresolve := (Alike.refl g).resolve_eq_of_sameEntries same
  exact ⟨hresolve, (Alike.refl g).endpoint_eq_of_resolve_eq hresolve⟩

end Graph

/-! ## A circle through a brand mapping -/

namespace Sample

def colorModes : Collection :=
  ⟨⟨"colorModes"⟩, "Color modes", .semantic .colorMode,
    [⟨⟨"day"⟩, "Day"⟩, ⟨⟨"night"⟩, "Night"⟩]⟩

def brandColors : Collection :=
  ⟨⟨"brandColors"⟩, "Brand colors", .brandMapping .colorMode,
    [⟨⟨"b1"⟩, "core"⟩, ⟨⟨"b2"⟩, "guest"⟩]⟩

def surface : Variable :=
  ⟨⟨"surface"⟩, "Color/surface", colorModes.id, .color,
    Table.empty.insert ⟨"day"⟩ (.alias ⟨"accent"⟩)⟩

/-- For the guest the accent leads back to the surface. -/
def accent : Variable :=
  ⟨⟨"accent"⟩, "Brand/accent", brandColors.id, .color,
    (Table.empty.insert ⟨"b1"⟩ (.literal (.text "#FFF"))).insert ⟨"b2"⟩ (.alias surface.id)⟩

def palettes : Graph := ⟨.ofList [colorModes, brandColors], .ofList [surface, accent], [], []⟩

def guestByDay : Context := { brandName := some "guest", colorMode := some ⟨"day"⟩ }

def guestAtLarge : Context :=
  { guestByDay with breakpoint := some ⟨"lg"⟩, density := some ⟨"dense"⟩ }

/-- The breakpoint and the density do not matter to a chain of colors, even to one that ends in a
circle; the brand does. -/
theorem resolve_surface_of_guest :
    palettes.AsksBrand (palettes.resolve guestByDay surface.id).value.chain ∧
      palettes.AsksAxis (palettes.resolve guestByDay surface.id).value.chain .colorMode ∧
      (palettes.resolve guestByDay surface.id).value.value = .unresolved .circularReference ∧
      (palettes.resolve { guestByDay with brandName := some "core" } surface.id).value.value =
        .color "#fff" ∧
      palettes.resolve guestByDay surface.id = palettes.resolve guestAtLarge surface.id := by
  have hchain : (palettes.resolve guestByDay surface.id).value.chain =
      [surface.id, accent.id] := by decide +kernel
  have hbrand : palettes.AsksBrand (palettes.resolve guestByDay surface.id).value.chain →
      guestByDay.brandName = guestAtLarge.brandName := fun _ => rfl
  have hmode : ∀ axis,
      palettes.AsksAxis (palettes.resolve guestByDay surface.id).value.chain axis →
        guestByDay.mode? axis = guestAtLarge.mode? axis := by
    rw [hchain]
    intro axis ⟨hop, hhop, v, kind, found, hkind, haxis⟩
    rcases List.mem_pair.mp hhop with rfl | rfl
    · cases found
      cases hkind
      cases haxis
      rfl
    -- a brand mapping has no axis
    · cases found
      cases hkind
      cases haxis
  obtain ⟨hresolve, -⟩ := Graph.resolve_eq_of_agrees hbrand hmode
  refine ⟨?_, ?_, by decide +kernel, by decide +kernel, hresolve⟩
  · rw [hchain]
    exact ⟨accent.id, by decide, accent, .colorMode, rfl, rfl⟩
  · rw [hchain]
    exact ⟨surface.id, by decide, surface, .semantic .colorMode, rfl, rfl, rfl⟩

end Sample

end DesignTokens
