import DesignTokens.Proofs.Configuration
import Mathlib.Data.List.Find

/-!
# Unambiguous configurations

A configuration is unambiguous if no name and no key of an axis occurs twice and every brand that
takes over colors takes them from a listed brand with colors of its own.  The checks accept these
configurations and no others (`validate_eq_ok_iff_unambiguous`).  They look for repetitions by
sorting, which puts equal texts side by side, so it is enough to compare neighbours
(`leastRepeated?_eq_firstTwin?`).

Every look-up in such a configuration has one answer: an entry that is found by its key is the only
one with that key (`Valid.hasOnly`).
-/

namespace DesignTokens

/-! ## Repetitions -/

namespace Configuration

/-- The first text that is followed by itself. -/
def firstTwin? : List String → Option String
  | first :: second :: rest => if first = second then some first else firstTwin? (second :: rest)
  | _ => none

/-- The order in which texts are sorted. -/
def textLe (a b : String) : Bool := (compare a b).isLE

private theorem textLe_trans (a b c : String) (hab : textLe a b) (hbc : textLe b c) : textLe a c :=
  Std.TransCmp.isLE_trans hab hbc

private theorem textLe_total (a b : String) : (textLe a b || textLe b a) = true := by
  have hswap : compare b a = (compare a b).swap := Std.OrientedCmp.eq_swap
  rw [textLe, textLe, hswap]
  cases compare a b <;> rfl

theorem textLe_antisymm {a b : String} (hab : textLe a b) (hba : textLe b a) : a = b := by
  have hswap : compare b a = (compare a b).swap := Std.OrientedCmp.eq_swap
  rw [textLe] at hab
  rw [textLe, hswap] at hba
  refine Std.compare_eq_iff_eq.mp ?_
  cases h : compare a b with
  | eq => rfl
  | lt => rw [h] at hba; cases hba
  | gt => rw [h] at hab; cases hab

theorem pairwise_sorted (texts : List String) :
    (texts.mergeSort textLe).Pairwise fun a b => textLe a b :=
  List.pairwise_mergeSort textLe_trans textLe_total texts

/-- To filter sorted texts is to sort filtered ones. -/
theorem mergeSort_filter (texts : List String) (p : String → Bool) :
    (texts.filter p).mergeSort textLe = (texts.mergeSort textLe).filter p := by
  refine List.Perm.eq_of_pairwise (fun a b _ _ => textLe_antisymm) (pairwise_sorted _)
    ((pairwise_sorted texts).filter p) ?_
  exact (List.mergeSort_perm _ _).trans ((List.mergeSort_perm texts textLe).symm.filter p)

/-- In sorted texts the first that occurs again is followed by itself. -/
theorem find?_count_eq_firstTwin? {sorted : List String}
    (hsorted : sorted.Pairwise fun a b => textLe a b) :
    (sorted.find? fun text => 1 < sorted.count text) = firstTwin? sorted := by
  induction sorted with
  | nil => rfl
  | cons first rest ih =>
      obtain ⟨hfirst, hrest⟩ := List.pairwise_cons.mp hsorted
      cases rest with
      | nil => simp [firstTwin?]
      | cons second others =>
          rw [firstTwin?]
          split
          · next heq => simp [heq]
          · next hne =>
            -- the second text lies between, so the first one does not come back
            have hgone : first ∉ second :: others := by
              intro hmem
              rcases List.mem_cons.mp hmem with heq | hmem
              · exact hne heq
              · have hback := (List.pairwise_cons.mp hrest).1 first hmem
                exact hne (textLe_antisymm (hfirst second List.mem_cons_self) hback)
            rw [← ih hrest, List.find?_cons_of_neg (by simp [List.count_eq_zero_of_not_mem hgone])]
            refine List.find?_congr fun text htext => ?_
            rw [List.count_cons_of_ne (ne_of_mem_of_not_mem htext hgone).symm]

theorem leastRepeated?_eq_firstTwin? (texts : List String) :
    leastRepeated? texts = firstTwin? (texts.mergeSort textLe) := by
  rw [← find?_count_eq_firstTwin? (pairwise_sorted texts)]
  show ((texts.filter _).mergeSort textLe).head? = _
  rw [mergeSort_filter, List.head?_filter]
  simp only [(List.mergeSort_perm texts textLe).count_eq]

/-! ## Accepted configurations -/

variable {config : Configuration} {context : Context} {key : CellKey}

/-- Names and keys say one thing each, and colors are taken over from brands that have their own. -/
structure Unambiguous (config : Configuration) : Prop where
  brands : (config.brands.map Brand.name).Nodup
  breakpoints : (config.breakpoints.map AxisMode.key).Nodup
  colorModes : (config.colorModes.map AxisMode.key).Nodup
  densities : (config.densities.map AxisMode.key).Nodup
  sources : ∀ brand ∈ config.brands, ∀ source ∈ brand.colorsFrom,
    ∃ owner ∈ config.brands, owner.name = source ∧ owner.colorsFrom = none

/-- Of brands with different names each is found by its own. -/
theorem brand?_eq_some_iff (hnames : (config.brands.map Brand.name).Nodup) {name : String}
    {brand : Brand} : config.brand? name = some brand ↔ brand ∈ config.brands ∧ brand.name = name :=
  find?_eq_some_iff_of_nodup hnames

private theorem valid_iff_unambiguous : config.Valid ↔ config.Unambiguous := by
  have hsources : (config.brands.map Brand.name).Nodup → ∀ source,
      (∃ owner, config.brand? source = some owner ∧ owner.hasPalette) ↔
        ∃ owner ∈ config.brands, owner.name = source ∧ owner.colorsFrom = none := by
    intro hnames source
    simp only [brand?_eq_some_iff hnames, Brand.hasPalette, Option.isNone_iff_eq_none, and_assoc]
  constructor
  · intro valid
    refine ⟨valid.names_nodup, valid.keys_nodup .breakpoint, valid.keys_nodup .colorMode,
      valid.keys_nodup .density, ?_⟩
    intro brand hbrand source hsource
    exact (hsources valid.names_nodup source).mp (valid.owned brand hbrand source hsource)
  · intro unambiguous
    refine ⟨unambiguous.brands, ?_, ?_⟩
    · intro axis
      cases axis with
      | breakpoint => exact unambiguous.breakpoints
      | colorMode => exact unambiguous.colorModes
      | density => exact unambiguous.densities
    · intro brand hbrand source hsource
      exact (hsources unambiguous.brands source).mpr
        (unambiguous.sources brand hbrand source hsource)

/-- A brand that others take colors from takes none over itself. -/
theorem Unambiguous.colorsFrom_eq_none (unambiguous : config.Unambiguous) {brand owner : Brand}
    (hbrand : brand ∈ config.brands) (howner : owner ∈ config.brands)
    (hsource : brand.colorsFrom = some owner.name) : owner.colorsFrom = none := by
  obtain ⟨other, hother, hname, hnone⟩ := unambiguous.sources brand hbrand owner.name hsource
  have hsame := List.inj_on_of_nodup_map unambiguous.brands hother howner hname
  rwa [← hsame]

/-! ## Look-up in accepted configurations -/

/-- What an axis has for a key: nothing if there is none, or else the mode of the only entry with
that key. -/
def HasOnly (entries : List AxisMode) (key : Option String) (mode : Option ModeId) : Prop :=
  match key with
  | none => mode = none
  | some key => ∃ entry, (entries.filter fun other => other.key == key) = [entry] ∧
      mode = some entry.mode

theorem Valid.hasOnly (valid : config.Valid) (axis : KeyedAxis) {key : Option String}
    {mode : Option ModeId} (h : config.mode? axis key = .ok mode) :
    HasOnly (config.modes axis) key mode := by
  cases key with
  | none => exact (Except.ok.inj h).symm
  | some key =>
      rw [mode?] at h
      split at h
      · next entry hfound =>
        obtain ⟨hentry, rfl⟩ := (find?_eq_some_iff_of_nodup (valid.keys_nodup axis)).mp hfound
        exact ⟨entry, filter_eq_singleton_of_nodup (valid.keys_nodup axis) hentry,
          (Except.ok.inj h).symm⟩
      · cases h

/-- **What the checks of a configuration are worth.**  They accept a configuration exactly if it is
unambiguous.  A brand that others take colors from then takes none over, so none takes its own and
there is no chain.  The keys of a cell have a context exactly if each of them is listed on its axis,
and the context has the brand of the cell and, on each other axis, the mode of the only entry with
the key of the cell. -/
theorem validate_eq_ok_iff_unambiguous (config : Configuration) :
    (config.validate = .ok () ↔ config.Unambiguous) ∧
    (config.validate = .ok () →
      (∀ brand ∈ config.brands, ∀ owner ∈ config.brands, brand.colorsFrom = some owner.name →
        owner.name ≠ brand.name ∧ owner.colorsFrom = none) ∧
      ∀ key, ((∃ context, config.context key = .ok context) ↔ config.Lists key) ∧
        ∀ context, config.context key = .ok context →
          context.brandName = key.brand ∧
          HasOnly config.breakpoints key.breakpoint context.breakpoint ∧
          HasOnly config.colorModes key.colorMode context.colorMode ∧
          HasOnly config.densities key.density context.density) := by
  have haccepted : config.validate = .ok () ↔ config.Unambiguous :=
    validate_eq_ok_iff.trans valid_iff_unambiguous
  refine ⟨haccepted, fun hvalid => ?_⟩
  have unambiguous := haccepted.mp hvalid
  refine ⟨?_, fun key => ⟨exists_context_iff, ?_⟩⟩
  · -- a brand that took its own colors would have none
    intro brand hbrand owner howner hsource
    have hnone := unambiguous.colorsFrom_eq_none hbrand howner hsource
    refine ⟨?_, hnone⟩
    intro hname
    obtain rfl := List.inj_on_of_nodup_map unambiguous.brands howner hbrand hname
    rw [hnone] at hsource
    cases hsource
  · intro context hcontext
    obtain ⟨-, hbrand, hbreakpoint, hcolorMode, hdensity⟩ := context_eq_ok_iff.mp hcontext
    have valid := validate_eq_ok_iff.mp hvalid
    exact ⟨hbrand, valid.hasOnly .breakpoint hbreakpoint, valid.hasOnly .colorMode hcolorMode,
      valid.hasOnly .density hdensity⟩

end Configuration

namespace Sample

/-- Two brands, one of which takes over the colors of the other, and two axes that share a key. -/
def tabloid : Configuration where
  brands := [{ name := "core" }, { name := "kids", colorsFrom := some "core" }]
  breakpoints := [⟨"small", ⟨"sm"⟩⟩, ⟨"default", ⟨"lg"⟩⟩]
  densities := [⟨"default", ⟨"cozy"⟩⟩]

theorem context_of_tabloid :
    tabloid.validate = .ok () ∧
      tabloid.context { brand := some "kids", breakpoint := some "default" } =
        .ok { brandName := some "kids", breakpoint := some ⟨"lg"⟩ } ∧
      Configuration.HasOnly tabloid.breakpoints (some "default") (some ⟨"lg"⟩) ∧
      ¬ ∃ context, tabloid.context { breakpoint := some "large" } = .ok context := by
  obtain ⟨haccepted, hlookUp⟩ := tabloid.validate_eq_ok_iff_unambiguous
  have hvalid : tabloid.validate = .ok () :=
    haccepted.mpr ⟨by decide, by decide, by decide, by decide, by decide⟩
  have hcontext : tabloid.context { brand := some "kids", breakpoint := some "default" } =
      .ok { brandName := some "kids", breakpoint := some ⟨"lg"⟩ } := rfl
  obtain ⟨-, hkeys⟩ := hlookUp hvalid
  refine ⟨hvalid, hcontext, ((hkeys _).2 _ hcontext).2.1, ?_⟩
  rw [(hkeys _).1]
  intro listed
  exact absurd (listed.breakpoint "large" rfl) (by decide)

end Sample

end DesignTokens
