import DesignTokens.Format.Output
import DesignTokens.Proofs.Json.ReadBack

/-!
# Outputs are read back

The numbers of an output are listed type by type (`Output.numbers`).  If all of them are finite, the
document of the output is read back as that output (`Output.readsBack`): each type hands the
condition down to its fields, and only numbers ask for it.  A number that is not finite would be
written as `null`, which is no number.
-/

namespace DesignTokens

open Json (Codec Field RecordForm TaggedForm Names Content)

/-! ## Names and keys -/

theorem VariableId.readsBack (id : VariableId) : VariableId.codec.ReadsBack 0 id :=
  Codec.readsBack_imap (Codec.readsBack_text _) rfl

theorem VariableType.readsBack (type : VariableType) : VariableType.codec.ReadsBack 0 type :=
  Names.readsBack (by cases type <;> rfl)

theorem CollectionKind.readsBack (kind : CollectionKind) :
    CollectionKind.codec.ReadsBack 1 kind := by
  cases kind with
  | semantic axis =>
      exact TaggedForm.readsBack (by decide) rfl rfl (Content.decode_named (by cases axis <;> rfl))
        nofun
  | brandMapping axis =>
      exact TaggedForm.readsBack (by decide) rfl rfl (Content.decode_named (by cases axis <;> rfl))
        nofun
  | primitive => exact TaggedForm.readsBack (by decide) rfl rfl nofun fun _ => rfl
  | density => exact TaggedForm.readsBack (by decide) rfl rfl nofun fun _ => rfl
  | component => exact TaggedForm.readsBack (by decide) rfl rfl nofun fun _ => rfl

theorem CellKey.readsBack (key : CellKey) : CellKey.codec.ReadsBack 1 key := by
  have htext : ∀ {text : Option String}, ∀ s ∈ text,
      Codec.text.ReadsBack 0 s ∧ Codec.text.encode s ≠ .null :=
    fun s _ => ⟨Codec.readsBack_text s, nofun⟩
  refine RecordForm.readsBack (by decide) (.cons (Field.restores_omitted htext)
    (.cons (Field.restores_omitted htext) (.cons (Field.restores_omitted htext)
      (.cons (Field.restores_omitted htext) .nil)))) ?_
  obtain ⟨brand, breakpoint, colorMode, density⟩ := key
  cases brand <;> cases breakpoint <;> cases colorMode <;> cases density <;> rfl

/-! ## Values, endpoints and properties -/

def Value.numbers : Value → List Binary64
  | .float x => [x]
  | .color _ | .text _ | .bool _ | .unresolved _ => []

theorem Value.readsBack {value : Value} (h : ∀ x ∈ value.numbers, x.isFinite) :
    Value.codec.ReadsBack 1 value := by
  cases value with
  | color s =>
      exact TaggedForm.readsBack (by decide) rfl rfl (Content.decode_of (Codec.readsBack_text s))
        nofun
  | float x =>
      have hx := Codec.readsBack_float (h x (by simp [numbers]))
      exact TaggedForm.readsBack (by decide) rfl rfl (Content.decode_of hx) nofun
  | text s =>
      exact TaggedForm.readsBack (by decide) rfl rfl (Content.decode_of (Codec.readsBack_text s))
        nofun
  | bool b =>
      exact TaggedForm.readsBack (by decide) rfl rfl (Content.decode_of (Codec.readsBack_bool b))
        nofun
  | unresolved reason =>
      exact TaggedForm.readsBack (by decide) rfl rfl
        (Content.decode_named (by cases reason <;> rfl)) nofun

theorem Endpoint.readsBack (endpoint : Endpoint) : Endpoint.codec.ReadsBack 2 endpoint := by
  refine RecordForm.readsBack (by decide)
    (.cons (Field.restores_required (CollectionKind.readsBack _))
      (.cons (Field.restores_required ((VariableId.readsBack _).mono (by decide)))
        (.cons (Field.restores_required ((Codec.readsBack_text _).mono (by decide)))
          (.cons (Field.restores_required ((Codec.readsBack_text _).mono (by decide))) .nil)))) rfl

theorem Binding.readsBack (binding : Binding) : Binding.form.codec.ReadsBack 3 binding := by
  refine RecordForm.readsBack (by decide)
    (.cons (Field.restores_required ((VariableId.readsBack _).mono (by decide)))
      (.cons (Field.restores_required ((Codec.readsBack_text _).mono (by decide)))
        (.cons (Field.restores_omitted fun e _ => ⟨Endpoint.readsBack e, nofun⟩) .nil))) ?_
  obtain ⟨id, path, endpoint⟩ := binding
  cases endpoint <;> rfl

theorem Property.readsBack {α : Type} {codec : Codec α} {property : Property α}
    (h : ∀ v ∈ property.value, codec.ReadsBack 0 v ∧ codec.encode v ≠ .null) :
    (Property.form codec).codec.ReadsBack 4 property := by
  have hnames : ["value", "binding"].Nodup := by decide
  refine RecordForm.readsBack hnames
    (.cons (Field.restores_optional fun v hv => ⟨(h v hv).1.mono (by decide), (h v hv).2⟩)
      (.cons (Field.restores_omitted fun b _ => ⟨Binding.readsBack b, nofun⟩) .nil)) ?_
  obtain ⟨value, binding⟩ := property
  cases binding <;> rfl

theorem Property.readsBack_text (property : Property String) :
    Property.textCodec.ReadsBack 4 property :=
  Property.readsBack fun s _ => ⟨Codec.readsBack_text s, nofun⟩

def Property.numbers (property : Property Binary64) : List Binary64 := property.value.toList

theorem Codec.float_encode_ne_null {x : Binary64} (h : x.isFinite) :
    Codec.float.encode x ≠ .null := by
  rw [show Codec.float.encode x = .real x from if_pos h]
  nofun

theorem Property.readsBack_number {property : Property Binary64}
    (h : ∀ x ∈ property.numbers, x.isFinite) : Property.numberCodec.ReadsBack 4 property := by
  refine Property.readsBack fun x hx => ?_
  have hfinite := h x (Option.mem_toList.mpr hx)
  exact ⟨Codec.readsBack_float hfinite, Codec.float_encode_ne_null hfinite⟩

/-! ## Composites -/

def Typography.numbers (t : Typography) : List Binary64 :=
  t.fontWeight.numbers ++ t.fontSize.numbers ++ t.lineHeight.numbers ++ t.letterSpacing.numbers

theorem Typography.readsBack {t : Typography} (h : ∀ x ∈ t.numbers, x.isFinite) :
    Typography.codec.ReadsBack 5 t := by
  obtain ⟨hrest, hspacing⟩ := List.forall_mem_append.mp h
  obtain ⟨hrest, hheight⟩ := List.forall_mem_append.mp hrest
  obtain ⟨hweight, hsize⟩ := List.forall_mem_append.mp hrest
  exact RecordForm.readsBack (by decide)
    (.cons (Field.restores_required (Property.readsBack_text _))
      (.cons (Field.restores_required (Property.readsBack_number hweight))
        (.cons (Field.restores_required (Property.readsBack_number hsize))
          (.cons (Field.restores_required (Property.readsBack_number hheight))
            (.cons (Field.restores_required (Property.readsBack_number hspacing))
              (.cons (Field.restores_required (Property.readsBack_text _))
                (.cons (Field.restores_required (Property.readsBack_text _))
                  (.cons (Field.restores_required (Property.readsBack_text _)) .nil)))))))) rfl

theorem TypographyToken.readsBack {token : TypographyToken}
    (h : ∀ x ∈ token.typography.numbers, x.isFinite) : TypographyToken.codec.ReadsBack 6 token :=
  RecordForm.readsBack (by decide)
    (.cons (Field.restores_required ((CellKey.readsBack _).mono (by decide)))
      (.cons (Field.restores_required ((Codec.readsBack_text _).mono (by decide)))
        (.cons (Field.restores_required ((Codec.readsBack_text _).mono (by decide)))
          (.cons (Field.restores_required (Typography.readsBack h)) .nil)))) rfl

def ShadowLayer.numbers (layer : ShadowLayer) : List Binary64 :=
  layer.offsetX.numbers ++ layer.offsetY.numbers ++ layer.radius.numbers ++ layer.spread.numbers

theorem ShadowLayer.readsBack {layer : ShadowLayer} (h : ∀ x ∈ layer.numbers, x.isFinite) :
    ShadowLayer.codec.ReadsBack 5 layer := by
  obtain ⟨hrest, hspread⟩ := List.forall_mem_append.mp h
  obtain ⟨hrest, hradius⟩ := List.forall_mem_append.mp hrest
  obtain ⟨hx, hy⟩ := List.forall_mem_append.mp hrest
  have hkind : ShadowKind.names.codec.ReadsBack 0 layer.kind :=
    Names.readsBack (by cases layer.kind <;> rfl)
  exact RecordForm.readsBack (by decide)
    (.cons (Field.restores_required (hkind.mono (by decide)))
      (.cons (Field.restores_required (Property.readsBack_text _))
        (.cons (Field.restores_required (Property.readsBack_number hx))
          (.cons (Field.restores_required (Property.readsBack_number hy))
            (.cons (Field.restores_required (Property.readsBack_number hradius))
              (.cons (Field.restores_required (Property.readsBack_number hspread))
                (.cons (Field.restores_required ((Codec.readsBack_text _).mono (by decide)))
                  .nil))))))) rfl

def EffectToken.numbers (token : EffectToken) : List Binary64 :=
  token.layers.flatMap ShadowLayer.numbers

theorem EffectToken.readsBack {token : EffectToken} (h : ∀ x ∈ token.numbers, x.isFinite) :
    EffectToken.codec.ReadsBack 7 token := by
  have hlayers := Codec.readsBack_list fun layer hlayer =>
    ShadowLayer.readsBack (List.forall_mem_flatMap.mp h layer hlayer)
  exact RecordForm.readsBack (by decide)
    (.cons (Field.restores_required ((CellKey.readsBack _).mono (by decide)))
      (.cons (Field.restores_required ((Codec.readsBack_text _).mono (by decide)))
        (.cons (Field.restores_required ((Codec.readsBack_text _).mono (by decide)))
          (.cons (Field.restores_required hlayers) .nil)))) rfl

/-! ## Standalone tokens -/

theorem LineHeightRatio.readsBack {ratio : LineHeightRatio} (h : ratio.ratio.isFinite) :
    LineHeightRatio.form.codec.ReadsBack 1 ratio :=
  RecordForm.readsBack (by decide)
    (.cons (Field.restores_required (Codec.readsBack_float h))
      (.cons (Field.restores_required (Names.readsBack (by cases ratio.source <;> rfl))) .nil)) rfl

def Token.numbers (token : Token) : List Binary64 :=
  token.value.numbers ++ (token.lineHeightRatio.map LineHeightRatio.ratio).toList

theorem Token.readsBack {token : Token} (h : ∀ x ∈ token.numbers, x.isFinite) :
    Token.codec.ReadsBack 3 token := by
  obtain ⟨hvalue, hratio⟩ := List.forall_mem_append.mp h
  have hratio : ∀ ratio ∈ token.lineHeightRatio,
      LineHeightRatio.form.codec.ReadsBack 2 ratio ∧
        LineHeightRatio.form.codec.encode ratio ≠ .null := by
    intro ratio hmem
    have hfinite := hratio ratio.ratio (Option.mem_toList.mpr (Option.mem_map_of_mem _ hmem))
    exact ⟨(LineHeightRatio.readsBack hfinite).mono (by decide), nofun⟩
  have hchain := Codec.readsBack_list fun id (_ : id ∈ token.chain) => VariableId.readsBack id
  refine RecordForm.readsBack (by decide)
    (.cons (Field.restores_required ((Codec.readsBack_text _).mono (by decide)))
      (.cons (Field.restores_required ((VariableId.readsBack _).mono (by decide)))
        (.cons (Field.restores_required ((VariableType.readsBack _).mono (by decide)))
          (.cons (Field.restores_required ((Value.readsBack hvalue).mono (by decide)))
            (.cons (Field.restores_required (hchain.mono (by decide)))
              (.cons (Field.restores_omitted fun e _ => ⟨Endpoint.readsBack e, nofun⟩)
                (.cons (Field.restores_omitted hratio) .nil))))))) ?_
  obtain ⟨path, id, type, value, chain, endpoint, ratio⟩ := token
  cases endpoint <;> cases ratio <;> rfl

def TokenFile.numbers (file : TokenFile) : List Binary64 := file.tokens.flatMap Token.numbers

theorem TokenFile.readsBack {file : TokenFile} (h : ∀ x ∈ file.numbers, x.isFinite) :
    TokenFile.codec.ReadsBack 5 file := by
  have htokens := Codec.readsBack_list fun token htoken =>
    Token.readsBack (List.forall_mem_flatMap.mp h token htoken)
  exact RecordForm.readsBack (by decide)
    (.cons (Field.restores_required ((CellKey.readsBack _).mono (by decide)))
      (.cons (Field.restores_required ((Codec.readsBack_text _).mono (by decide)))
        (.cons (Field.restores_required htokens) .nil))) rfl

/-! ## The density matrix -/

theorem DensityCell.readsBack {cell : DensityCell} (h : ∀ x ∈ cell.value.numbers, x.isFinite) :
    DensityCell.codec.ReadsBack 3 cell := by
  refine RecordForm.readsBack (by decide)
    (.cons (Field.restores_required ((CellKey.readsBack _).mono (by decide)))
      (.cons (Field.restores_required ((Value.readsBack h).mono (by decide)))
        (.cons (Field.restores_omitted fun e _ => ⟨Endpoint.readsBack e, nofun⟩) .nil))) ?_
  obtain ⟨key, value, endpoint⟩ := cell
  cases endpoint <;> rfl

def DensityToken.numbers (token : DensityToken) : List Binary64 :=
  token.cells.flatMap fun cell => cell.value.numbers

theorem DensityToken.readsBack {token : DensityToken} (h : ∀ x ∈ token.numbers, x.isFinite) :
    DensityToken.codec.ReadsBack 5 token := by
  have hcells := Codec.readsBack_list fun cell hcell =>
    DensityCell.readsBack (List.forall_mem_flatMap.mp h cell hcell)
  exact RecordForm.readsBack (by decide)
    (.cons (Field.restores_required ((Codec.readsBack_text _).mono (by decide)))
      (.cons (Field.restores_required ((Codec.readsBack_text _).mono (by decide)))
        (.cons (Field.restores_required ((VariableId.readsBack _).mono (by decide)))
          (.cons (Field.restores_required hcells) .nil)))) rfl

/-! ## Token sets -/

def TokenSet.numbers (tokens : TokenSet) : List Binary64 :=
  tokens.files.flatMap TokenFile.numbers ++
    tokens.typography.flatMap (fun token => token.typography.numbers) ++
      tokens.effects.flatMap EffectToken.numbers ++ tokens.density.flatMap DensityToken.numbers

theorem TokenSet.readsBack {tokens : TokenSet} (h : ∀ x ∈ tokens.numbers, x.isFinite) :
    TokenSet.codec.ReadsBack 9 tokens := by
  obtain ⟨hrest, hdensity⟩ := List.forall_mem_append.mp h
  obtain ⟨hrest, heffects⟩ := List.forall_mem_append.mp hrest
  obtain ⟨hfiles, htypography⟩ := List.forall_mem_append.mp hrest
  have hfiles := Codec.readsBack_list fun file hfile =>
    TokenFile.readsBack (List.forall_mem_flatMap.mp hfiles file hfile)
  have htypography := Codec.readsBack_list fun token htoken =>
    TypographyToken.readsBack (List.forall_mem_flatMap.mp htypography token htoken)
  have heffects := Codec.readsBack_list fun token htoken =>
    EffectToken.readsBack (List.forall_mem_flatMap.mp heffects token htoken)
  have hdensity := Codec.readsBack_list fun token htoken =>
    DensityToken.readsBack (List.forall_mem_flatMap.mp hdensity token htoken)
  have hpalettes : (Codec.table id some Codec.text).ReadsBack 1 tokens.paletteInheritance :=
    Codec.readsBack_table (fun _ => rfl) fun entry _ => Codec.readsBack_text entry.2
  exact RecordForm.readsBack (by decide)
    (.cons (Field.restores_required (hfiles.mono (by decide)))
      (.cons (Field.restores_required (htypography.mono (by decide)))
        (.cons (Field.restores_required heffects)
          (.cons (Field.restores_required (hdensity.mono (by decide)))
            (.cons (Field.restores_required (hpalettes.mono (by decide))) .nil))))) rfl

/-! ## Reports and summaries -/

theorem RatioConflict.readsBack {conflict : RatioConflict} (h : ∀ x ∈ conflict.ratios, x.isFinite) :
    RatioConflict.form.codec.ReadsBack 2 conflict := by
  have hratios := Codec.readsBack_list fun x hx => Codec.readsBack_float (h x hx)
  exact RecordForm.readsBack (by decide)
    (.cons (Field.restores_required (CellKey.readsBack _))
      (.cons (Field.restores_required ((VariableId.readsBack _).mono (by decide)))
        (.cons (Field.restores_required hratios) .nil))) rfl

theorem UnmatchedToken.readsBack (token : UnmatchedToken) :
    UnmatchedToken.codec.ReadsBack 2 token :=
  RecordForm.readsBack (by decide)
    (.cons (Field.restores_required (CellKey.readsBack _))
      (.cons (Field.restores_required ((Codec.readsBack_text _).mono (by decide)))
        (.cons (Field.restores_required ((Codec.readsBack_text _).mono (by decide))) .nil))) rfl

theorem UnmatchedToken.readsBack_list (tokens : List UnmatchedToken) :
    UnmatchedToken.codec.list.ReadsBack 3 tokens :=
  Codec.readsBack_list fun token _ => UnmatchedToken.readsBack token

def RatioReport.numbers (report : RatioReport) : List Binary64 :=
  report.conflicts.flatMap RatioConflict.ratios

theorem RatioReport.readsBack {report : RatioReport} (h : ∀ x ∈ report.numbers, x.isFinite) :
    RatioReport.codec.ReadsBack 4 report := by
  have hconflicts := Codec.readsBack_list fun conflict hconflict =>
    RatioConflict.readsBack (List.forall_mem_flatMap.mp h conflict hconflict)
  exact RecordForm.readsBack (by decide)
    (.cons (Field.restores_required ((Codec.readsBack_count _).mono (by decide)))
      (.cons (Field.restores_required ((Codec.readsBack_count _).mono (by decide)))
        (.cons (Field.restores_required ((Codec.readsBack_count _).mono (by decide)))
          (.cons (Field.restores_required ((Codec.readsBack_count _).mono (by decide)))
            (.cons (Field.restores_required hconflicts)
              (.cons (Field.restores_required (UnmatchedToken.readsBack_list _)) .nil)))))) rfl

theorem Diagnostic.readsBack (d : Diagnostic) : Diagnostic.codec.ReadsBack 1 d :=
  RecordForm.readsBack (by decide)
    (.cons (Field.restores_required (Names.readsBack (by cases d.kind <;> rfl)))
      (.cons (Field.restores_required (Codec.readsBack_text _))
        (.cons (Field.restores_required (Codec.readsBack_text _))
          (.cons (Field.restores_required (Codec.readsBack_count _)) .nil)))) rfl

theorem Summary.readsBack (summary : Summary) : Summary.codec.ReadsBack 4 summary := by
  have hcounts : (Codec.table FindingKind.names.name FindingKind.names.find?
      Codec.count).ReadsBack 1 summary.counts :=
    Codec.readsBack_table (fun kind => by cases kind <;> rfl) fun entry _ =>
      Codec.readsBack_count entry.2
  have hdiagnostics := Codec.readsBack_list fun d (_ : d ∈ summary.diagnostics) =>
    Diagnostic.readsBack d
  exact RecordForm.readsBack (by decide)
    (.cons (Field.restores_required (hcounts.mono (by decide)))
      (.cons (Field.restores_required ((Codec.readsBack_count _).mono (by decide)))
        (.cons (Field.restores_required (UnmatchedToken.readsBack_list _))
          (.cons (Field.restores_required (hdiagnostics.mono (by decide))) .nil)))) rfl

/-! ## Outputs -/

/-- All numbers that an output hands over, apart from counts. -/
def Output.numbers (output : Output) : List Binary64 :=
  output.tokens.numbers ++ output.ratios.numbers

/-- An output whose numbers are finite is read back from its document. -/
theorem Output.readsBack {output : Output} (h : ∀ x ∈ output.numbers, x.isFinite) :
    Output.codec.ReadsBack 10 output := by
  obtain ⟨htokens, hratios⟩ := List.forall_mem_append.mp h
  exact RecordForm.readsBack (by decide)
    (.cons (Field.restores_required (TokenSet.readsBack htokens))
      (.cons (Field.restores_required ((RatioReport.readsBack hratios).mono (by decide)))
        (.cons (Field.restores_required ((Summary.readsBack _).mono (by decide))) .nil))) rfl

end DesignTokens
