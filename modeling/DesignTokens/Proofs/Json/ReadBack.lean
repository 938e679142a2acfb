import DesignTokens.Json.Record
import DesignTokens.Json.Variant
import DesignTokens.Proofs.Except
import DesignTokens.Proofs.Table
import Mathlib.Data.List.Forall2

/-!
# Reading back what was written

`Codec.ReadsBack` says of one value that its codec, given the document that it wrote itself, comes
to that value again.  Containers may not lie too deep, so it has a height, the number of containers
that the document may need; a container around documents of one height adds one.

There is one lemma for each way to make a codec.  For records `Field.Restores` says what the member
of a field does to the record that is being read; what all fields do to the blank record one after
the other has to be the record that was written (`RecordForm.readsBack`).
-/

namespace DesignTokens.Json

variable {α β κ ν ρ : Type} {height : Nat}

theorem deepen_eq_ok {depth : Nat} (h : depth < depthLimit) : deepen depth = .ok (depth + 1) :=
  if_pos h

namespace Codec

/-- A value is read back with `height` levels of containers to spare. -/
def ReadsBack (codec : Codec α) (height : Nat) (value : α) : Prop :=
  ∀ depth, depth + height ≤ depthLimit →
    codec.decode depth (.ofValue (codec.encode value)) = .ok value

theorem ReadsBack.mono {codec : Codec α} {value : α} {height' : Nat}
    (h : codec.ReadsBack height value) (hle : height ≤ height') : codec.ReadsBack height' value :=
  fun depth hdepth => h depth (by omega)

/-- A value is read back from a document of its own. -/
def RoundTrips (codec : Codec α) (value : α) : Prop :=
  codec.decode 0 (.ofValue (codec.encode value)) = .ok value

theorem ReadsBack.roundTrips {codec : Codec α} {value : α} (h : codec.ReadsBack height value)
    (hheight : height ≤ depthLimit) : codec.RoundTrips value :=
  h 0 (by omega)

/-! ## Plain types -/

theorem readsBack_text (s : String) : text.ReadsBack 0 s := fun _ _ => rfl

theorem readsBack_bool (b : Bool) : bool.ReadsBack 0 b := fun _ _ => rfl

theorem readsBack_count (n : Nat) : count.ReadsBack 0 n := fun _ _ => rfl

/-- A finite number has a spelling. -/
theorem readsBack_float {x : Binary64} (h : x.isFinite) : float.ReadsBack 0 x := by
  intro depth hdepth
  rw [show float.encode x = .real x from if_pos h]
  rfl

theorem readsBack_imap {codec : Codec α} {wrap : α → β} {unwrap : β → α} {value : β}
    (h : codec.ReadsBack height (unwrap value)) (hwrap : wrap (unwrap value) = value) :
    (codec.imap wrap unwrap).ReadsBack height value := by
  intro depth hdepth
  show (codec.decode depth (.ofValue (codec.encode (unwrap value)))).map wrap = .ok value
  rw [h depth hdepth]
  exact congrArg Except.ok hwrap

/-! ## Optional values, lists and tables -/

theorem decode_nullable {codec : Codec α} {value : α} (h : codec.ReadsBack height value)
    (hne : codec.encode value ≠ .null) {depth : Nat} (hdepth : depth + height ≤ depthLimit) :
    codec.nullable.decode depth (.ofValue (codec.encode value)) = .ok (some value) := by
  have hdecode := h depth hdepth
  cases hjson : codec.encode value with
  | null => exact absurd hjson hne
  | bool _ | number _ | text _ | array _ | object _ =>
    rw [hjson] at hdecode
    exact congrArg (Except.map some) hdecode

theorem readsBack_nullable {codec : Codec α} {value : Option α}
    (h : ∀ v ∈ value, codec.ReadsBack height v ∧ codec.encode v ≠ .null) :
    codec.nullable.ReadsBack height value := by
  intro depth hdepth
  cases value with
  | none => rfl
  | some v => exact decode_nullable (h v rfl).1 (h v rfl).2 hdepth

private theorem decodeItems_ofItems {codec : Codec α} {depth : Nat}
    (hdepth : depth + height ≤ depthLimit) {values : List α}
    (h : ∀ v ∈ values, codec.ReadsBack height v) :
    decodeItems codec.decode depth (Document.ofItems (values.map codec.encode)) = .ok values := by
  induction values with
  | nil => rfl
  | cons v rest ih =>
      obtain ⟨hv, hrest⟩ := List.forall_mem_cons.mp h
      rw [List.map_cons, Document.ofItems, decodeItems, hv depth hdepth, ih hrest]
      rfl

theorem readsBack_list {codec : Codec α} {values : List α}
    (h : ∀ v ∈ values, codec.ReadsBack height v) : codec.list.ReadsBack (height + 1) values := by
  intro depth hdepth
  have hinner : depth + 1 + height ≤ depthLimit := by omega
  rw [list, Document.ofValue]
  simp only [deepen_eq_ok (show depth < depthLimit by omega), Except.ok_bind,
    decodeItems_ofItems hinner h]
  rfl

section Table

variable [Ord κ] [Std.TransOrd κ]

/-- Entries with a key behind all others are put last. -/
theorem insertEntry_of_forall_lt {k : κ} {value : ν} {entries : List (κ × ν)}
    (h : ∀ entry ∈ entries, compare entry.1 k = .lt) :
    Table.insertEntry k value entries = entries ++ [(k, value)] := by
  induction entries with
  | nil => rfl
  | cons entry rest ih =>
      obtain ⟨hfirst, hrest⟩ := List.forall_mem_cons.mp h
      rw [Table.insertEntry, Std.OrientedCmp.gt_iff_lt.mpr hfirst]
      exact congrArg (entry :: ·) (ih hrest)

variable [Std.LawfulEqOrd κ] {key : κ → String} {key? : String → Option κ}

private theorem decodeEntries_ofMembers {codec : Codec ν} {depth : Nat}
    (hkey : ∀ k, key? (key k) = some k) (hdepth : depth + height ≤ depthLimit)
    (entries : List (κ × ν)) (h : ∀ entry ∈ entries, codec.ReadsBack height entry.2)
    (t : Table κ ν) (hascending : ((t.entries ++ entries).map Prod.fst).Pairwise
      fun a b => compare a b = .lt) :
    ∃ u, decodeEntries key? codec.decode depth t (Document.ofMembers
        (entries.map fun entry => (key entry.1, codec.encode entry.2))) = .ok u ∧
      u.entries = t.entries ++ entries := by
  induction entries generalizing t with
  | nil => exact ⟨t, rfl, (List.append_nil _).symm⟩
  | cons entry rest ih =>
      obtain ⟨k, value⟩ := entry
      obtain ⟨hvalue, hrest⟩ := List.forall_mem_cons.mp h
      have hlast : (t.insert k value).entries = t.entries ++ [(k, value)] := by
        refine insertEntry_of_forall_lt fun entry hentry => ?_
        rw [List.map_append, List.pairwise_append] at hascending
        exact hascending.2.2 _ (List.mem_map_of_mem hentry) _ (by simp)
      obtain ⟨u, hread, hentries⟩ := ih hrest (t.insert k value) (by
        rw [hlast, List.append_assoc]
        exact hascending)
      refine ⟨u, ?_, by rw [hentries, hlast, List.append_assoc]; rfl⟩
      rw [← hread, List.map_cons, Document.ofMembers, decodeEntries]
      simp only [Token.keep, Except.ok_bind, hkey, hvalue depth hdepth]

theorem readsBack_table {codec : Codec ν} {t : Table κ ν} (hkey : ∀ k, key? (key k) = some k)
    (h : ∀ entry ∈ t.entries, codec.ReadsBack height entry.2) :
    (table key key? codec).ReadsBack (height + 1) t := by
  intro depth hdepth
  have hinner : depth + 1 + height ≤ depthLimit := by omega
  obtain ⟨u, hread, hentries⟩ := decodeEntries_ofMembers hkey hinner t.entries h .empty t.ascending
  rw [table, Document.ofValue]
  simp only [deepen_eq_ok (show depth < depthLimit by omega), Except.ok_bind, hread]
  exact congrArg Except.ok (Table.ext hentries)

end Table

end Codec

/-! ## Names -/

theorem Names.readsBack {names : Names α} {value : α}
    (h : names.find? (names.name value) = some value) : names.codec.ReadsBack 0 value := by
  intro depth hdepth
  show names.named (names.name value) = .ok value
  rw [named, h]

/-! ## Records -/

/-- The member of a field is read as a change of the record that is being made; a field that is left
out may be, and changes nothing. -/
structure Field.Restores (field : Field ρ) (height : Nat) (record : ρ) (change : ρ → ρ) : Prop where
  written : ∀ json ∈ field.write record, ∀ depth, depth + height ≤ depthLimit →
    field.read depth (.ofValue json) = .ok change
  absent : field.write record = none → field.absence ≠ .never ∧ change = id

namespace Field

/-- The member that holds a value is read as the change that puts the value in. -/
theorem read_encode {codec : Codec α} {put : α → ρ → ρ} {value : α}
    (h : codec.ReadsBack height value) :
    ∀ json ∈ some (codec.encode value), ∀ depth, depth + height ≤ depthLimit →
      reading codec put depth (.ofValue json) = .ok (put value) := by
  rintro json hjson depth hdepth
  obtain rfl := Option.some.inj hjson
  exact congrArg (Except.map put) (h depth hdepth)

theorem restores_required {name : String} {codec : Codec α} {get : ρ → α} {put : α → ρ → ρ}
    {record : ρ} (h : codec.ReadsBack height (get record)) :
    (required name codec get put).Restores height record (put (get record)) where
  written := read_encode h
  absent := by rintro ⟨⟩

theorem restores_defaulted {name : String} {codec : Codec α} {get : ρ → α} {put : α → ρ → ρ}
    {record : ρ} (h : codec.ReadsBack height (get record)) :
    (defaulted name codec get put).Restores height record (put (get record)) where
  written := read_encode h
  absent := by rintro ⟨⟩

/-- A value that is left out leaves the blank one. -/
theorem restores_omitted {name : String} {codec : Codec α} {get : ρ → Option α}
    {put : Option α → ρ → ρ} {record : ρ}
    (h : ∀ v ∈ get record, codec.ReadsBack height v ∧ codec.encode v ≠ .null) :
    (omitted name codec get put).Restores height record
      (if (get record).isSome then put (get record) else id) where
  written := by
    intro json hjson depth hdepth
    obtain ⟨v, hv, rfl⟩ := Option.map_eq_some_iff.mp hjson
    have hread := Codec.decode_nullable (h v hv).1 (h v hv).2 hdepth
    rw [hv]
    exact congrArg (Except.map put) hread
  absent := by
    intro hnone
    have hget : get record = none := Option.map_eq_none_iff.mp hnone
    rw [hget]
    exact ⟨by simp [omitted, optional], rfl⟩

theorem restores_optional {name : String} {codec : Codec α} {get : ρ → Option α}
    {put : Option α → ρ → ρ} {record : ρ}
    (h : ∀ v ∈ get record, codec.ReadsBack height v ∧ codec.encode v ≠ .null) :
    (optional name codec get put).Restores height record (put (get record)) where
  written := read_encode (Codec.readsBack_nullable h)
  absent := by rintro ⟨⟩

end Field

namespace RecordForm

/-- The members of a record as they are written. -/
def members (fields : List (Field ρ)) (record : ρ) : List (String × Json) :=
  fields.filterMap fun field => (field.write record).map fun member => (field.name, member)

/-- Reading the members of some last fields makes their changes, and sees those that are written. -/
theorem readMembers_ofMembers {fields : List (Field ρ)} {record : ρ} {depth : Nat}
    (hnames : (fields.map Field.name).Nodup) (hdepth : depth + height ≤ depthLimit)
    {later : List (Field ρ)} {changes : List (ρ → ρ)} (hfields : later ⊆ fields)
    (hlater : (later.map Field.name).Nodup)
    (hrestores : List.Forall₂ (fun field => field.Restores height record) later changes)
    {seen : List String} (hunseen : ∀ field ∈ later, field.name ∉ seen) (start : ρ) :
    ∃ seen', readMembers fields depth seen start (Document.ofMembers (members later record)) =
        .ok (seen', changes.foldl (fun record change => change record) start) ∧
      seen ⊆ seen' ∧ ∀ field ∈ later, field.absence ≠ .never ∨ field.name ∈ seen' := by
  induction hrestores generalizing seen start with
  | nil => exact ⟨seen, rfl, List.Subset.refl _, by simp⟩
  | @cons field change rest changes hfield hrest ih =>
      obtain ⟨hmem, hfields⟩ := List.cons_subset.mp hfields
      obtain ⟨hfresh, hlater⟩ := List.nodup_cons.mp hlater
      obtain ⟨hname, hunseen⟩ := List.forall_mem_cons.mp hunseen
      cases hwrite : field.write record with
      | none =>
          -- a field that is left out may be absent, and leaves the record as it is
          obtain ⟨habsent, rfl⟩ := hfield.absent hwrite
          obtain ⟨seen', hread, hsub, hseen⟩ := ih hfields hlater hunseen start
          have hmembers : members (field :: rest) record = members rest record := by
            simp [members, hwrite]
          rw [hmembers]
          exact ⟨seen', hread, hsub, List.forall_mem_cons.mpr ⟨.inl habsent, hseen⟩⟩
      | some json =>
          -- a field that is written is read where it stands, for the first time
          have hread := hfield.written json hwrite depth hdepth
          have hothers : ∀ other ∈ rest, other.name ∉ field.name :: seen := by
            intro other hother hmem
            rcases List.mem_cons.mp hmem with heq | hmem
            · exact hfresh (heq ▸ List.mem_map_of_mem hother)
            · exact hunseen other hother hmem
          obtain ⟨seen', hrest, hsub, hseen⟩ := ih hfields hlater hothers (change start)
          obtain ⟨hown, hsub⟩ := List.cons_subset.mp hsub
          refine ⟨seen', ?_, hsub, List.forall_mem_cons.mpr ⟨.inr hown, hseen⟩⟩
          have hmembers : members (field :: rest) record =
              (field.name, json) :: members rest record := by
            simp [members, hwrite]
          have hcontains : seen.contains field.name = false := by simpa using hname
          rw [hmembers, Document.ofMembers, readMembers, List.foldl_cons, ← hrest]
          simp only [Token.keep, Except.ok_bind, find?_eq_some_of_nodup hnames hmem, hcontains,
            hread]
          rfl

/-- A record is read back if the changes that its fields make turn the blank record into it. -/
theorem readsBack {form : RecordForm ρ} {record : ρ} {changes : List (ρ → ρ)}
    (hnames : (form.fields.map Field.name).Nodup)
    (hrestores : List.Forall₂ (fun field => field.Restores height record) form.fields changes)
    (hrestored : changes.foldl (fun record change => change record) form.blank = record) :
    form.codec.ReadsBack (height + 1) record := by
  intro depth hdepth
  have hinner : depth + 1 + height ≤ depthLimit := by omega
  have hunseen : ∀ field ∈ form.fields, field.name ∉ ([] : List String) := by simp
  obtain ⟨seen, hread, -, hseen⟩ := readMembers_ofMembers hnames hinner (List.Subset.refl _) hnames
    hrestores hunseen form.blank
  have hall : form.fields.all fun field =>
      field.absence != .never || seen.contains field.name := by
    simpa using hseen
  have hencode : form.codec.encode record = .object (members form.fields record) := rfl
  rw [hencode, Document.ofValue, codec]
  simp only [deepen_eq_ok (show depth < depthLimit by omega), Except.ok_bind, hread, hrestored]
  exact if_pos hall

end RecordForm

/-! ## Tagged content -/

namespace TaggedForm

variable {form : TaggedForm α} {value : α} {variant : Content α}

/-- A value is read back if the variant that its tag names reads its content. -/
theorem readsBack {name : String} {content : Option Json}
    (hdistinct : form.content ≠ form.tag) (hwrite : form.write value = (name, content))
    (hfind : form.names.find? name = some (name, variant))
    (hcontent : ∀ json ∈ content, ∀ depth, depth + height ≤ depthLimit →
      variant.decode depth (.ofValue json) = .ok value)
    (hnothing : content = none → variant.fromNothing = .ok value) :
    form.codec.ReadsBack (height + 1) value := by
  intro depth hdepth
  have htag : form.decodeTag (depth + 1) (.text (.sound name)) = .ok variant := by
    show ((form.names.named name).map Prod.snd) = .ok variant
    rw [Names.named, hfind]
    rfl
  have hencode : form.codec.encode value = .object ((form.tag, .text name) ::
      (content.map fun c => (form.content, c)).toList) := by
    simp only [codec, hwrite]
  rw [hencode, Document.ofValue, codec]
  cases content with
  | none =>
      simp only [deepen_eq_ok (show depth < depthLimit by omega), Except.ok_bind, Option.map_none,
        Option.toList_none, Document.ofMembers, Document.ofValue, readMembers, Token.keep, if_true,
        htag]
      exact hnothing rfl
  | some json =>
      have hread := hcontent json rfl (depth + 1) (by omega)
      simp only [deepen_eq_ok (show depth < depthLimit by omega), Except.ok_bind, Option.map_some,
        Option.toList_some, Document.ofMembers, Document.ofValue, readMembers, Token.keep, if_true,
        htag, if_neg hdistinct, hread]
      rfl

end TaggedForm

/-- The content of a variant with the form of a codec. -/
theorem Content.decode_of {codec : Codec β} {wrap : β → α} {value : β}
    (h : codec.ReadsBack height value) : ∀ json ∈ Option.some (codec.encode value), ∀ depth,
      depth + height ≤ depthLimit → (Content.of codec wrap).decode depth (.ofValue json) =
        .ok (wrap value) := by
  rintro json hjson depth hdepth
  obtain rfl := Option.some.inj hjson
  exact congrArg (Except.map wrap) (h depth hdepth)

theorem Content.decode_named {names : Names β} {wrap : β → α} {value : β}
    (h : names.find? (names.name value) = Option.some value) :
    ∀ json ∈ Option.some (names.codec.encode value), ∀ depth, depth + 0 ≤ depthLimit →
      (Content.named names wrap).decode depth (.ofValue json) = .ok (wrap value) := by
  rintro json hjson depth hdepth
  obtain rfl := Option.some.inj hjson
  exact congrArg (Except.map wrap) (Names.readsBack h depth hdepth)

/-! ## Content that says itself what it is -/

/-- A value that is known as a whole is read as it would be in its place. -/
theorem Codec.ofKept?_encode {codec : Codec α} {value : α} (h : codec.ReadsBack height value)
    (hheight : height ≤ depthLimit) : codec.ofKept? (codec.encode value) = some value := by
  rw [ofKept?, h.roundTrips hheight]
  rfl

/-- Members that are each kept as they are are kept together. -/
theorem Document.keepMembers_ofMembers {members : List (String × Json)} {depth : Nat}
    (h : ∀ entry ∈ members, keep depth (.ofValue entry.2) = .ok entry.2) :
    keepMembers depth (ofMembers members) = .ok members := by
  induction members with
  | nil => rfl
  | cons entry rest ih =>
      obtain ⟨hentry, hrest⟩ := List.forall_mem_cons.mp h
      rw [Document.ofMembers, keepMembers]
      simp only [Token.keep, Except.ok_bind, hentry, ih hrest]
      rfl

theorem Document.keep_ofValue_object {members : List (String × Json)} {depth : Nat}
    (hdepth : depth < depthLimit)
    (h : ∀ entry ∈ members, keep (depth + 1) (.ofValue entry.2) = .ok entry.2) :
    keep depth (.ofValue (.object members)) = .ok (.object members) := by
  rw [Document.ofValue, keep, deepen_eq_ok hdepth]
  simp only [Except.ok_bind, keepMembers_ofMembers h]
  rfl

/-- A document that is kept as a value is read by the first reading that fits the value. -/
theorem firstFitting_eq_ok {readings : List (Json → Option α)} {json : Json} {value : α}
    {depth : Nat} (hkeep : Document.keep depth (.ofValue json) = .ok json)
    (hfits : readings.findSome? (fun reading => reading json) = some value) :
    firstFitting readings depth (.ofValue json) = .ok value := by
  rw [firstFitting, hkeep]
  simp only [Except.ok_bind, hfits]
  rfl

end DesignTokens.Json
