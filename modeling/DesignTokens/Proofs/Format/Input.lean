import DesignTokens.Format.Export
import DesignTokens.Proofs.Format.Output

/-!
# Exports, configurations and options are read back

The types that a run reads, in the same way as those that it hands over: the numbers of an `Export`
are listed type by type, and if all of them are finite, its document is read back as that export.
Configurations and options have no numbers.

The entries of a variable are the hard part, because nothing in their form says what they are.  What
is written there is kept as a whole and the readings are tried in order, so each reading before the
right one has to fail: a reference asks for members that a color does not have, a color for an
object, and the rest for one sort of document each (`Literal.findSome?_readings`).
-/

namespace DesignTokens

open Json (Codec Field RecordForm Names Document)

/-! ## References and plain names -/

theorem ModeId.readsBack (id : ModeId) : ModeId.codec.ReadsBack 0 id :=
  Codec.readsBack_imap (Codec.readsBack_text _) rfl

theorem CollectionId.readsBack (id : CollectionId) : CollectionId.codec.ReadsBack 0 id :=
  Codec.readsBack_imap (Codec.readsBack_text _) rfl

theorem VariableId.readsBack_reference (id : VariableId) : VariableId.reference.ReadsBack 1 id :=
  RecordForm.readsBack (by decide)
    (.cons (Field.restores_required (Names.readsBack rfl))
      (.cons (Field.restores_required (VariableId.readsBack id)) .nil)) rfl

/-- A missing reference is written as `null`, which no reference is. -/
theorem VariableId.readsBack_bound {bound : Option VariableId} :
    ∀ id ∈ bound, VariableId.reference.ReadsBack 1 id ∧ VariableId.reference.encode id ≠ .null :=
  fun id _ => ⟨VariableId.readsBack_reference id, nofun⟩

/-! ## Literals and entries -/

def Rgba.channels (c : Rgba) : List Binary64 := [c.r, c.g, c.b, c.a]

def Literal.numbers : Literal → List Binary64
  | .color c => c.channels
  | .number x => [x]
  | .bool _ | .text _ => []

def Entry.numbers : Entry → List Binary64
  | .literal value => value.numbers
  | .alias _ => []

theorem Rgba.readsBack {c : Rgba} (h : ∀ x ∈ c.channels, x.isFinite) :
    Rgba.codec.ReadsBack 1 c := by
  simp only [channels, List.forall_mem_cons] at h
  obtain ⟨hr, hg, hb, ha, -⟩ := h
  exact RecordForm.readsBack (by decide)
    (.cons (Field.restores_required (Codec.readsBack_float hr))
      (.cons (Field.restores_required (Codec.readsBack_float hg))
        (.cons (Field.restores_required (Codec.readsBack_float hb))
          (.cons (Field.restores_defaulted (Codec.readsBack_float ha)) .nil)))) rfl

theorem Codec.float_encode {x : Binary64} (h : x.isFinite) : Codec.float.encode x = .real x :=
  if_pos h

theorem Rgba.encode_eq {c : Rgba} (h : ∀ x ∈ c.channels, x.isFinite) :
    Rgba.codec.encode c =
      .object [("r", .real c.r), ("g", .real c.g), ("b", .real c.b), ("a", .real c.a)] := by
  simp only [channels, List.forall_mem_cons] at h
  obtain ⟨hr, hg, hb, ha, -⟩ := h
  rw [← Codec.float_encode hr, ← Codec.float_encode hg, ← Codec.float_encode hb,
    ← Codec.float_encode ha]
  rfl

namespace Literal

variable {literal : Literal}

/-- No literal has the members of a reference. -/
theorem ofKept?_reference_encode (h : ∀ x ∈ literal.numbers, x.isFinite) :
    VariableId.reference.ofKept? literal.encode = none := by
  cases literal with
  | color c =>
      rw [encode, Rgba.encode_eq h]
      rfl
  | bool b => rfl
  | number x =>
      rw [encode, Codec.float_encode (h x (List.mem_singleton_self x))]
      rfl
  | text s => rfl

/-- The readings before the one of the same variant do not fit. -/
theorem findSome?_readings (h : ∀ x ∈ literal.numbers, x.isFinite) :
    readings.findSome? (fun reading => reading literal.encode) = some literal := by
  cases literal with
  | color c =>
      have hread := Codec.ofKept?_encode (Rgba.readsBack h) (by decide)
      simp [readings, encode, hread]
  | bool b => rfl
  | number x =>
      rw [encode, Codec.float_encode (h x (List.mem_singleton_self x))]
      rfl
  | text s => rfl

private theorem keep_encode (h : ∀ x ∈ literal.numbers, x.isFinite) {depth : Nat}
    (hdepth : depth < Json.depthLimit) :
    Document.keep depth (.ofValue literal.encode) = .ok literal.encode := by
  cases literal with
  | color c =>
      rw [encode, Rgba.encode_eq h]
      refine Document.keep_ofValue_object hdepth ?_
      simp only [List.forall_mem_cons]
      exact ⟨rfl, rfl, rfl, rfl, nofun⟩
  | bool b => rfl
  | number x =>
      rw [encode, Codec.float_encode (h x (List.mem_singleton_self x))]
      rfl
  | text s => rfl

end Literal

theorem Entry.readsBack {entry : Entry} (h : ∀ x ∈ entry.numbers, x.isFinite) :
    Entry.bareCodec.ReadsBack 1 entry := by
  intro depth hdepth
  rcases entry with literal | target
  · have hnone := Literal.ofKept?_reference_encode h
    have hreadings := congrArg (Option.map Entry.literal) (Literal.findSome?_readings h)
    refine Json.firstFitting_eq_ok (Literal.keep_encode h (by omega)) ?_
    simpa [bareCodec, encodeBare, hnone, List.findSome?_map, Function.comp_def] using hreadings
  · have hread := Codec.ofKept?_encode (VariableId.readsBack_reference target) (by decide)
    have hencode : VariableId.reference.encode target =
        .object [("type", .text "VARIABLE_ALIAS"), ("id", .text target.text)] := rfl
    refine Json.firstFitting_eq_ok ?_ (by simp [bareCodec, encodeBare, hread])
    show Document.keep depth (.ofValue (VariableId.reference.encode target)) = _
    rw [hencode]
    refine Document.keep_ofValue_object (by omega) ?_
    simp only [List.forall_mem_cons]
    exact ⟨rfl, rfl, nofun⟩

/-! ## Collections and variables -/

theorem Mode.readsBack_declared (mode : Mode) : Mode.declaredForm.codec.ReadsBack 1 mode :=
  RecordForm.readsBack (by decide)
    (.cons (Field.restores_required (ModeId.readsBack _))
      (.cons (Field.restores_required (Codec.readsBack_text _)) .nil)) rfl

theorem CollectionDeclaration.readsBack (c : CollectionDeclaration) :
    CollectionDeclaration.codec.ReadsBack 3 c := by
  have hmodes := Codec.readsBack_list fun mode (_ : mode ∈ c.modes) => Mode.readsBack_declared mode
  exact RecordForm.readsBack (by decide)
    (.cons (Field.restores_required ((CollectionId.readsBack _).mono (by decide)))
      (.cons (Field.restores_required ((Codec.readsBack_text _).mono (by decide)))
        (.cons (Field.restores_required hmodes) .nil))) rfl

def Variable.numbers (v : Variable) : List Binary64 :=
  v.entries.entries.flatMap fun entry => entry.2.numbers

theorem Variable.readsBack_declared {v : Variable} (h : ∀ x ∈ v.numbers, x.isFinite) :
    Variable.declaredCodec.ReadsBack 3 v := by
  have hentries : (Entry.tableCodec Entry.bareCodec).ReadsBack 2 v.entries :=
    Codec.readsBack_table (fun _ => rfl) fun entry hentry =>
      Entry.readsBack (List.forall_mem_flatMap.mp h entry hentry)
  exact RecordForm.readsBack (by decide)
    (.cons (Field.restores_required ((VariableId.readsBack _).mono (by decide)))
      (.cons (Field.restores_required ((Codec.readsBack_text _).mono (by decide)))
        (.cons (Field.restores_required ((CollectionId.readsBack _).mono (by decide)))
          (.cons (Field.restores_required ((VariableType.readsBack _).mono (by decide)))
            (.cons (Field.restores_defaulted hentries) .nil))))) rfl

/-! ## Text styles -/

theorem Codec.readsBack_nullable_text (s : Option String) : Codec.text.nullable.ReadsBack 0 s :=
  Codec.readsBack_nullable fun s _ => ⟨Codec.readsBack_text s, nofun⟩

theorem Codec.readsBack_nullable_float {x : Option Binary64} (h : ∀ y ∈ x, y.isFinite) :
    Codec.float.nullable.ReadsBack 0 x :=
  Codec.readsBack_nullable fun y hy =>
    ⟨Codec.readsBack_float (h y hy), Codec.float_encode_ne_null (h y hy)⟩

theorem FontName.readsBack (font : FontName) : FontName.form.codec.ReadsBack 1 font :=
  RecordForm.readsBack (by decide)
    (.cons (Field.restores_required (Codec.readsBack_text _))
      (.cons (Field.restores_required (Codec.readsBack_text _)) .nil)) rfl

theorem Length.readsBack {length : Length} (h : ∀ x ∈ length.value, x.isFinite) :
    Length.codec.ReadsBack 1 length := by
  have hunit : LengthUnit.names.codec.ReadsBack 0 length.unit :=
    Names.readsBack (by cases length.unit <;> rfl)
  exact RecordForm.readsBack (by decide)
    (.cons (Field.restores_required hunit)
      (.cons (Field.restores_defaulted (Codec.readsBack_nullable_float h)) .nil)) rfl

theorem TextBindings.readsBack (bindings : TextBindings) :
    TextBindings.form.codec.ReadsBack 2 bindings :=
  RecordForm.readsBack (by decide)
    (.cons (Field.restores_optional VariableId.readsBack_bound)
      (.cons (Field.restores_optional VariableId.readsBack_bound)
        (.cons (Field.restores_optional VariableId.readsBack_bound)
          (.cons (Field.restores_optional VariableId.readsBack_bound)
            (.cons (Field.restores_optional VariableId.readsBack_bound)
              (.cons (Field.restores_optional VariableId.readsBack_bound) .nil)))))) rfl

def TextStyle.numbers (style : TextStyle) : List Binary64 :=
  style.fontSize.toList ++ (style.lineHeight.bind Length.value).toList ++
    (style.letterSpacing.bind Length.value).toList

theorem TextStyle.readsBack {style : TextStyle} (h : ∀ x ∈ style.numbers, x.isFinite) :
    TextStyle.codec.ReadsBack 3 style := by
  obtain ⟨hrest, hspacing⟩ := List.forall_mem_append.mp h
  obtain ⟨hsize, hheight⟩ := List.forall_mem_append.mp hrest
  have hfont : FontName.form.codec.nullable.ReadsBack 1 style.fontName :=
    Codec.readsBack_nullable fun font _ => ⟨FontName.readsBack font, nofun⟩
  have hlength : ∀ {length? : Option Length}, (∀ x ∈ (length?.bind Length.value).toList,
      x.isFinite) → Length.codec.nullable.ReadsBack 1 length? := by
    refine fun hfinite => Codec.readsBack_nullable fun length hlength => ⟨?_, nofun⟩
    refine Length.readsBack fun x hx => hfinite x (Option.mem_toList.mpr ?_)
    exact Option.mem_bind_iff.mpr ⟨length, hlength, hx⟩
  have hsize : Codec.float.nullable.ReadsBack 0 style.fontSize :=
    Codec.readsBack_nullable_float fun x hx => hsize x (Option.mem_toList.mpr hx)
  exact RecordForm.readsBack (by decide)
    (.cons (Field.restores_required ((Codec.readsBack_text _).mono (by decide)))
      (.cons (Field.restores_required ((Codec.readsBack_text _).mono (by decide)))
        (.cons (Field.restores_defaulted (hfont.mono (by decide)))
          (.cons (Field.restores_defaulted (hsize.mono (by decide)))
            (.cons (Field.restores_defaulted ((hlength hheight).mono (by decide)))
              (.cons (Field.restores_defaulted ((hlength hspacing).mono (by decide)))
                (.cons (Field.restores_defaulted
                    ((Codec.readsBack_nullable_text _).mono (by decide)))
                  (.cons (Field.restores_defaulted
                      ((Codec.readsBack_nullable_text _).mono (by decide)))
                    (.cons (Field.restores_defaulted (TextBindings.readsBack _))
                      .nil))))))))) rfl

/-! ## Effect styles -/

theorem Offset.readsBack {offset : Offset} (hx : offset.x.isFinite) (hy : offset.y.isFinite) :
    Offset.form.codec.ReadsBack 1 offset :=
  RecordForm.readsBack (by decide)
    (.cons (Field.restores_required (Codec.readsBack_float hx))
      (.cons (Field.restores_required (Codec.readsBack_float hy)) .nil)) rfl

theorem EffectBindings.readsBack (bindings : EffectBindings) :
    EffectBindings.form.codec.ReadsBack 2 bindings :=
  RecordForm.readsBack (by decide)
    (.cons (Field.restores_optional VariableId.readsBack_bound)
      (.cons (Field.restores_optional VariableId.readsBack_bound)
        (.cons (Field.restores_optional VariableId.readsBack_bound)
          (.cons (Field.restores_optional VariableId.readsBack_bound)
            (.cons (Field.restores_optional VariableId.readsBack_bound) .nil))))) rfl

/-- The lengths of an effect. -/
def Effect.numbers (effect : Effect) : List Binary64 :=
  [effect.offset.x, effect.offset.y, effect.radius, effect.spread]

def Effect.channels (effect : Effect) : List Binary64 :=
  effect.color.toList.flatMap Rgba.channels

theorem Effect.readsBack {effect : Effect} (hnumbers : ∀ x ∈ effect.numbers, x.isFinite)
    (hchannels : ∀ x ∈ effect.channels, x.isFinite) : Effect.form.codec.ReadsBack 3 effect := by
  simp only [numbers, List.forall_mem_cons] at hnumbers
  obtain ⟨hx, hy, hradius, hspread, -⟩ := hnumbers
  have htype : EffectType.names.codec.ReadsBack 0 effect.type :=
    Names.readsBack (by cases effect.type <;> rfl)
  have hcolor : Rgba.codec.nullable.ReadsBack 1 effect.color :=
    Codec.readsBack_nullable fun c hc => ⟨Rgba.readsBack fun x hx =>
      hchannels x (List.mem_flatMap.mpr ⟨c, Option.mem_toList.mpr hc, hx⟩), nofun⟩
  exact RecordForm.readsBack (by decide)
    (.cons (Field.restores_required (htype.mono (by decide)))
      (.cons (Field.restores_defaulted ((Codec.readsBack_bool _).mono (by decide)))
        (.cons (Field.restores_defaulted (hcolor.mono (by decide)))
          (.cons (Field.restores_defaulted ((Offset.readsBack hx hy).mono (by decide)))
            (.cons (Field.restores_defaulted ((Codec.readsBack_float hradius).mono (by decide)))
              (.cons (Field.restores_defaulted ((Codec.readsBack_float hspread).mono (by decide)))
                (.cons (Field.restores_defaulted
                    ((Codec.readsBack_nullable_text _).mono (by decide)))
                  (.cons (Field.restores_defaulted (EffectBindings.readsBack _))
                    .nil)))))))) rfl

def EffectStyle.numbers (style : EffectStyle) : List Binary64 :=
  style.effects.flatMap fun effect => effect.numbers ++ effect.channels

theorem EffectStyle.readsBack {style : EffectStyle} (h : ∀ x ∈ style.numbers, x.isFinite) :
    EffectStyle.codec.ReadsBack 5 style := by
  have heffects : Effect.form.codec.list.ReadsBack 4 style.effects := by
    refine Codec.readsBack_list fun effect heffect => ?_
    obtain ⟨hnumbers, hchannels⟩ :=
      List.forall_mem_append.mp (List.forall_mem_flatMap.mp h effect heffect)
    exact Effect.readsBack hnumbers hchannels
  exact RecordForm.readsBack (by decide)
    (.cons (Field.restores_required ((Codec.readsBack_text _).mono (by decide)))
      (.cons (Field.restores_required ((Codec.readsBack_text _).mono (by decide)))
        (.cons (Field.restores_defaulted heffects) .nil))) rfl

/-! ## Exports -/

/-- All numbers of an export. -/
def Export.numbers (source : Export) : List Binary64 :=
  source.nodes.flatMap Variable.numbers ++ source.textStyles.flatMap TextStyle.numbers ++
    source.effectStyles.flatMap EffectStyle.numbers

theorem Export.readsBack {source : Export} (h : ∀ x ∈ source.numbers, x.isFinite) :
    Export.codec.ReadsBack 7 source := by
  obtain ⟨hrest, heffects⟩ := List.forall_mem_append.mp h
  obtain ⟨hnodes, htexts⟩ := List.forall_mem_append.mp hrest
  have hcollections := Codec.readsBack_list fun c (_ : c ∈ source.collections) =>
    CollectionDeclaration.readsBack c
  have hnodes := Codec.readsBack_list fun v hv =>
    Variable.readsBack_declared (List.forall_mem_flatMap.mp hnodes v hv)
  have htexts := Codec.readsBack_list fun style hstyle =>
    TextStyle.readsBack (List.forall_mem_flatMap.mp htexts style hstyle)
  have heffects := Codec.readsBack_list fun style hstyle =>
    EffectStyle.readsBack (List.forall_mem_flatMap.mp heffects style hstyle)
  exact RecordForm.readsBack (by decide)
    (.cons (Field.restores_defaulted (hcollections.mono (by decide)))
      (.cons (Field.restores_defaulted (hnodes.mono (by decide)))
        (.cons (Field.restores_defaulted (htexts.mono (by decide)))
          (.cons (Field.restores_defaulted heffects) .nil)))) rfl

/-! ## Configurations -/

theorem Brand.readsBack (brand : Brand) : Brand.codec.ReadsBack 1 brand :=
  RecordForm.readsBack (by decide)
    (.cons (Field.restores_required (Codec.readsBack_text _))
      (.cons (Field.restores_defaulted (Codec.readsBack_nullable_text _)) .nil)) rfl

theorem AxisMode.readsBack (mode : AxisMode) : AxisMode.form.codec.ReadsBack 1 mode :=
  RecordForm.readsBack (by decide)
    (.cons (Field.restores_required (Codec.readsBack_text _))
      (.cons (Field.restores_required (ModeId.readsBack _)) .nil)) rfl

theorem KindOverride.readsBack (override : KindOverride) :
    KindOverride.form.codec.ReadsBack 2 override :=
  RecordForm.readsBack (by decide)
    (.cons (Field.restores_required ((Codec.readsBack_text _).mono (by decide)))
      (.cons (Field.restores_required (CollectionKind.readsBack _)) .nil)) rfl

theorem Configuration.readsBack (config : Configuration) :
    Configuration.codec.ReadsBack 4 config := by
  have hbrands := Codec.readsBack_list fun brand (_ : brand ∈ config.brands) =>
    Brand.readsBack brand
  have hmodes : ∀ modes, AxisMode.form.codec.list.ReadsBack 2 modes :=
    fun _ => Codec.readsBack_list fun mode _ => AxisMode.readsBack mode
  have hkinds := Codec.readsBack_list fun kind (_ : kind ∈ config.collections) =>
    KindOverride.readsBack kind
  exact RecordForm.readsBack (by decide)
    (.cons (Field.restores_required (hbrands.mono (by decide)))
      (.cons (Field.restores_defaulted ((hmodes _).mono (by decide)))
        (.cons (Field.restores_defaulted ((hmodes _).mono (by decide)))
          (.cons (Field.restores_defaulted ((hmodes _).mono (by decide)))
            (.cons (Field.restores_defaulted hkinds) .nil))))) rfl

/-! ## Options -/

theorem FindingKind.readsBack (kind : FindingKind) : FindingKind.codec.ReadsBack 0 kind :=
  Names.readsBack (by cases kind <;> rfl)

theorem Acceptance.readsBack (flags : Acceptance) : Acceptance.codec.ReadsBack 1 flags :=
  RecordForm.readsBack (by decide)
    (.cons (Field.restores_defaulted (Codec.readsBack_bool _))
      (.cons (Field.restores_defaulted (Codec.readsBack_bool _))
        (.cons (Field.restores_defaulted (Codec.readsBack_bool _)) .nil))) rfl

theorem RatioOptions.readsBack (options : RatioOptions) : RatioOptions.codec.ReadsBack 1 options :=
  RecordForm.readsBack (by decide)
    (.cons (Field.restores_defaulted (Codec.readsBack_bool _)) .nil) rfl

theorem Policy.readsBack (policy : Policy) : Policy.codec.ReadsBack 2 policy := by
  have hfatal := Codec.readsBack_list fun kind (_ : kind ∈ policy.fatal) =>
    FindingKind.readsBack kind
  exact RecordForm.readsBack (by decide) (.cons (Field.restores_defaulted hfatal) .nil) rfl

theorem Options.readsBack (options : Options) : Options.codec.ReadsBack 3 options :=
  RecordForm.readsBack (by decide)
    (.cons (Field.restores_defaulted ((Codec.readsBack_text _).mono (by decide)))
      (.cons (Field.restores_defaulted ((Acceptance.readsBack _).mono (by decide)))
        (.cons (Field.restores_defaulted ((Acceptance.readsBack _).mono (by decide)))
          (.cons (Field.restores_defaulted ((Acceptance.readsBack _).mono (by decide)))
            (.cons (Field.restores_defaulted ((RatioOptions.readsBack _).mono (by decide)))
              (.cons (Field.restores_defaulted (Policy.readsBack _)) .nil)))))) rfl

/-! ## All documents -/

/-- **What is written is what is read.**  Every export, configuration, options, token set and output
whose numbers are finite is read back from its own document.  In particular an entry comes back as
the variant that it was, be it a reference or one of the literals, and so do kinds of collections,
values, the cells whose open axes are left out, and the findings under which counts are kept. -/
theorem roundTrips_of_isFinite :
    (∀ source : Export, (∀ x ∈ source.numbers, x.isFinite) → Export.codec.RoundTrips source) ∧
    (∀ config : Configuration, Configuration.codec.RoundTrips config) ∧
    (∀ options : Options, Options.codec.RoundTrips options) ∧
    (∀ tokens : TokenSet, (∀ x ∈ tokens.numbers, x.isFinite) → TokenSet.codec.RoundTrips tokens) ∧
    (∀ output : Output, (∀ x ∈ output.numbers, x.isFinite) → Output.codec.RoundTrips output) ∧
    (∀ entry : Entry, (∀ x ∈ entry.numbers, x.isFinite) → Entry.bareCodec.RoundTrips entry) ∧
    (∀ kind : CollectionKind, CollectionKind.codec.RoundTrips kind) ∧
    (∀ value : Value, (∀ x ∈ value.numbers, x.isFinite) → Value.codec.RoundTrips value) ∧
    (∀ key : CellKey, CellKey.codec.RoundTrips key) ∧
    ∀ kind : FindingKind, FindingKind.names.find? (FindingKind.names.name kind) = some kind := by
  refine ⟨fun source h => ?_, fun config => ?_, fun options => ?_, fun tokens h => ?_,
    fun output h => ?_, fun entry h => ?_, fun kind => ?_, fun value h => ?_, fun key => ?_,
    fun kind => ?_⟩
  · exact (Export.readsBack h).roundTrips (by decide)
  · exact (Configuration.readsBack config).roundTrips (by decide)
  · exact (Options.readsBack options).roundTrips (by decide)
  · exact (TokenSet.readsBack h).roundTrips (by decide)
  · exact (Output.readsBack h).roundTrips (by decide)
  · exact (Entry.readsBack h).roundTrips (by decide)
  · exact (CollectionKind.readsBack kind).roundTrips (by decide)
  · exact (Value.readsBack h).roundTrips (by decide)
  · exact (CellKey.readsBack key).roundTrips (by decide)
  · cases kind <;> rfl

/-! ## Documents with all variants -/

namespace Sample

/-- Each sort of entry; the text is the one by which references are told. -/
def paintSource : Export where
  collections := [⟨⟨"paints"⟩, "_Paints", [⟨⟨"value"⟩, "Value"⟩]⟩]
  nodes := [
    ⟨⟨"ink"⟩, "Ink", ⟨"paints"⟩, .color,
      Table.empty.insert ⟨"value"⟩ (.literal (.color ⟨0, 0, 0, 1⟩))⟩,
    ⟨⟨"shade"⟩, "Shade", ⟨"paints"⟩, .color, Table.empty.insert ⟨"value"⟩ (.alias ⟨"ink"⟩)⟩,
    ⟨⟨"blur"⟩, "Blur", ⟨"paints"⟩, .float, Table.empty.insert ⟨"value"⟩ (.literal (.number 4))⟩,
    ⟨⟨"tag"⟩, "Tag", ⟨"paints"⟩, .string,
      Table.empty.insert ⟨"value"⟩ (.literal (.text "VARIABLE_ALIAS"))⟩,
    ⟨⟨"flat"⟩, "Flat", ⟨"paints"⟩, .boolean, Table.empty.insert ⟨"value"⟩ (.literal (.bool true))⟩]
  textStyles := [
    { id := "note", name := "Note", fontSize := some 12, lineHeight := some ⟨.percent, some 120⟩,
      bindings := { fontFamily := some ⟨"tag"⟩ } }]
  effectStyles := [
    { id := "glow", name := "Glow",
      effects := [{ type := .dropShadow, color := some ⟨1, 1, 1, 1⟩, radius := 4 }] }]

def paintConfiguration : Configuration where
  brands := [{ name := "core" }, { name := "heir", colorsFrom := some "core" }]
  colorModes := [⟨"light", ⟨"value"⟩⟩]
  collections := [⟨"Rhythm", .semantic .density⟩]

/-- A token that came to nothing and one with a number. -/
def paintTokens : TokenSet where
  files := [
    { key := { brand := some "core" }, scope := "Paints",
      tokens := [
        { path := "Shade", id := ⟨"shade"⟩, type := .color, value := .unresolved .missingVariable,
          chain := [⟨"shade"⟩] },
        { path := "Blur", id := ⟨"blur"⟩, type := .float, value := .float 4, chain := [⟨"blur"⟩],
          lineHeightRatio := some ⟨2, .identity⟩ }] }]
  paletteInheritance := Table.empty.insert "heir" "core"

def paintOutput : Output where
  tokens := paintTokens
  summary := { counts := Table.empty.insert .circularReference 1 }

theorem roundTrips_paint :
    ((∀ x ∈ paintSource.numbers, x.isFinite) ∧ (∀ x ∈ paintTokens.numbers, x.isFinite) ∧
      ∀ x ∈ paintOutput.numbers, x.isFinite) ∧
    Export.codec.RoundTrips paintSource ∧ Configuration.codec.RoundTrips paintConfiguration ∧
      TokenSet.codec.RoundTrips paintTokens ∧ Output.codec.RoundTrips paintOutput := by
  obtain ⟨hsource, hconfig, -, htokens, houtput, -⟩ := roundTrips_of_isFinite
  have hsourceFinite : ∀ x ∈ paintSource.numbers, x.isFinite := by decide +kernel
  have htokensFinite : ∀ x ∈ paintTokens.numbers, x.isFinite := by decide +kernel
  have houtputFinite : ∀ x ∈ paintOutput.numbers, x.isFinite := by decide +kernel
  exact ⟨⟨hsourceFinite, htokensFinite, houtputFinite⟩, hsource _ hsourceFinite, hconfig _,
    htokens _ htokensFinite, houtput _ houtputFinite⟩

end Sample

end DesignTokens
