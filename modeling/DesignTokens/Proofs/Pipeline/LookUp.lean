import DesignTokens.Proofs.Pipeline.TokenFiles

/-!
# Looking up a file

A file is looked up by its key and its scope, which together are its address, and the first file
with an address is found.  The files of cells have different addresses: no two cells have one key,
and in a cell no two files have one scope.  The files of primitive collections all have the open
key, and the name of the collection for a scope.  Collections have different ids but may share a
name, so of these files only the first one of a name is found.

`Filed` says this of the files that a pipeline builds and of those that a run hands over.
-/

namespace DesignTokens

/-- What a file is looked up by. -/
def TokenFile.address (file : TokenFile) : CellKey × String := (file.key, file.scope)

namespace TokenSet

variable {tokens : TokenSet} {options : RatioOptions} {file : TokenFile}

/-- If no two files have one address, each is found. -/
theorem file?_eq_some_of_nodup (h : (tokens.files.map TokenFile.address).Nodup)
    (hfile : file ∈ tokens.files) : tokens.file? file.key file.scope = some file :=
  find?_eq_some_of_nodup h hfile

@[simp] theorem attached_scope : (tokens.attached options file).scope = file.scope := by
  unfold attached
  split
  · rfl
  · rfl

@[simp] theorem address_attached : (tokens.attached options file).address = file.address := by
  simp [TokenFile.address]

end TokenSet

/-- The primitive collections of an export. -/
def Export.primitives (source : Export) (overrides : List KindOverride) : List Collection :=
  (source.collections.map (Graph.collectionOf overrides)).filter fun c => c.kind == .primitive

namespace Pipeline

variable {p : Pipeline} {files others : List TokenFile} {sized colored : List Cell}
  {tokens : TokenSet}

/-! ## The files of a pipeline -/

/-- Files are those of the primitive collections, followed by others with keys and with different
addresses. -/
structure Filed (p : Pipeline) (files others : List TokenFile) : Prop where
  files_eq : files = p.primitiveFiles ++ others
  keyed : ∀ file ∈ others, file.key ≠ {}
  distinct : (others.map TokenFile.address).Nodup

/-- The files of cells with different keys have different addresses. -/
theorem nodup_addresses_filesIn {keys : List CellKey} {cells : List Cell}
    (lays : p.Lays keys cells) (distinct : keys.Nodup) (select : Variable → Bool) :
    ((cells.flatMap fun cell => (p.filesIn select cell).value).map TokenFile.address).Nodup := by
  refine nodup_map_pair_flatMap Cell.key ?_ ?_ ?_
  · rw [lays.keys_eq]
    exact distinct
  · exact fun cell _ file hfile => (forall_mem_filesIn file hfile).1
  · exact fun cell _ => (sorts_filesIn select cell).scopes_nodup

theorem IsLaidOut.filed (laid : p.IsLaidOut sized colored tokens) (valid : p.config.Valid) :
    ∃ others, p.Filed tokens.files others := by
  refine ⟨_, laid.files_eq.trans (List.append_assoc _ _ _), ?_, ?_⟩
  · intro file hfile
    rcases List.mem_append.mp hfile with hfile | hfile
    · obtain ⟨brand, -, breakpoint, -, hkey⟩ := Configuration.mem_breakpointKeys_iff.mp
        (laid.sized_lays.key_mem_of_mem_filesIn hfile)
      rw [← hkey]
      simp [CellKey.ofBrandBreakpoint]
    · obtain ⟨brand, -, colorMode, -, hkey⟩ := Configuration.mem_colorKeys_iff.mp
        (laid.colored_lays.key_mem_of_mem_filesIn hfile)
      rw [← hkey]
      simp [CellKey.ofBrandColorMode]
  · rw [List.map_append]
    refine (nodup_addresses_filesIn laid.sized_lays valid.breakpointKeys_nodup _).append
      (nodup_addresses_filesIn laid.colored_lays valid.colorKeys_nodup _) ?_
    -- a cell of brand and breakpoint is none of color mode
    rw [List.disjoint_left]
    rintro address hsized hcolored
    obtain ⟨file, hfile, rfl⟩ := List.mem_map.mp hsized
    obtain ⟨other, hother, heq⟩ := List.mem_map.mp hcolored
    have hkey : other.key = file.key := congrArg Prod.fst heq
    obtain ⟨brand, -, breakpoint, -, hsizedKey⟩ := Configuration.mem_breakpointKeys_iff.mp
      (laid.sized_lays.key_mem_of_mem_filesIn hfile)
    have hcoloredKey := laid.colored_lays.key_mem_of_mem_filesIn hother
    rw [hkey, ← hsizedKey] at hcoloredKey
    exact Configuration.ofBrandBreakpoint_not_mem_colorKeys hcoloredKey

/-- The files of primitive collections are given no ratios. -/
theorem attached_primitiveFiles (tokens : TokenSet) (options : RatioOptions) :
    p.primitiveFiles.map (tokens.attached options) = p.primitiveFiles := by
  refine (List.map_congr_left fun file hfile => ?_).trans (List.map_id _)
  rw [TokenSet.attached, (forall_mem_primitiveFiles file hfile).1]
  rfl

/-- Attaching ratios keeps the addresses. -/
theorem Filed.attached (filed : p.Filed files others) (tokens : TokenSet)
    (options : RatioOptions) :
    p.Filed (files.map (tokens.attached options)) (others.map (tokens.attached options)) where
  files_eq := by rw [filed.files_eq, List.map_append, attached_primitiveFiles]
  keyed := by simpa using filed.keyed
  distinct := by
    rw [List.map_map]
    simpa [Function.comp_def] using filed.distinct

/-! ## Look-up -/

namespace Filed

variable (filed : p.Filed tokens.files others)

include filed

/-- The files with keys are the others. -/
theorem filter_keyed : (tokens.files.filter fun file => file.key ≠ {}) = others := by
  have hprimitives : (p.primitiveFiles.filter fun file => file.key ≠ {}) = [] := by
    rw [List.filter_eq_nil_iff]
    intro file hfile
    simp [(forall_mem_primitiveFiles file hfile).1]
  have hothers : (others.filter fun file => file.key ≠ {}) = others := by
    simpa [List.filter_eq_self] using filed.keyed
  rw [filed.files_eq, List.filter_append, hprimitives, hothers, List.nil_append]

/-- No file of a primitive collection has the address of another file. -/
theorem address_ne {file other : TokenFile} (hfile : file ∈ p.primitiveFiles)
    (hother : other ∈ others) : file.address ≠ other.address := by
  intro heq
  refine filed.keyed other hother ?_
  rw [← (forall_mem_primitiveFiles file hfile).1]
  exact (congrArg Prod.fst heq).symm

/-- A file with a key is found. -/
theorem file?_eq_some {file : TokenFile} (hfile : file ∈ tokens.files) (hkey : file.key ≠ {}) :
    tokens.file? file.key file.scope = some file := by
  have hmem : file ∈ others := by
    rw [← filed.filter_keyed]
    exact List.mem_filter.mpr ⟨hfile, decide_eq_true hkey⟩
  have hnone : (p.primitiveFiles.find? fun other => other.address == file.address) = none := by
    rw [List.find?_eq_none]
    intro other hother heq
    exact filed.address_ne hother hmem (beq_iff_eq.mp heq)
  have hfound : (tokens.files.find? fun other => other.address == file.address) = some file := by
    rw [filed.files_eq, List.find?_append, hnone, Option.none_or]
    exact find?_eq_some_of_nodup filed.distinct hmem
  exact hfound

/-- Without a key the first primitive collection of the name is found. -/
theorem file?_open (name : String) : tokens.file? {} name =
    ((p.graph.collections.filter fun c => c.kind == .primitive).find? fun c => c.name == name).map
      fun c => (p.primitiveFile c).value := by
  have hnone : (others.find? fun file => file.address == ({}, name)) = none := by
    rw [List.find?_eq_none]
    intro file hfile heq
    exact filed.keyed file hfile (congrArg Prod.fst (beq_iff_eq.mp heq))
  have hfound : (tokens.files.find? fun file => file.address == ({}, name)) =
      p.primitiveFiles.find? fun file => file.address == ({}, name) := by
    rw [filed.files_eq, List.find?_append, hnone, Option.or_none]
  refine Eq.trans hfound ?_
  rw [primitiveFiles, List.find?_map]
  congr 2

/-- The addresses differ exactly if the names of the primitive collections do. -/
theorem nodup_addresses_iff : (tokens.files.map TokenFile.address).Nodup ↔
    ((p.graph.collections.filter fun c => c.kind == .primitive).map Collection.name).Nodup := by
  have hprimitives : p.primitiveFiles.map TokenFile.address =
      ((p.graph.collections.filter fun c => c.kind == .primitive).map Collection.name).map
        (Prod.mk {}) := by
    rw [primitiveFiles, List.map_map, List.map_map]
    rfl
  have hdisjoint : ∀ address ∈ p.primitiveFiles.map TokenFile.address,
      ∀ other ∈ others.map TokenFile.address, address ≠ other := by
    intro address haddress other hother
    obtain ⟨file, hfile, rfl⟩ := List.mem_map.mp haddress
    obtain ⟨keyed, hkeyed, rfl⟩ := List.mem_map.mp hother
    exact filed.address_ne hfile hkeyed
  have hinjective : Function.Injective (Prod.mk {} : String → CellKey × String) :=
    fun _ _ heq => congrArg Prod.snd heq
  rw [filed.files_eq, List.map_append, List.nodup_append, and_iff_left ⟨filed.distinct, hdisjoint⟩,
    hprimitives, List.nodup_map_iff hinjective]

end Filed

/-- A pipeline hands over a token set as it was built, or with ratios after a run. -/
def HandsOver (p : Pipeline) (tokens : TokenSet) : Prop :=
  (∃ built, p.tokens = .ok built ∧ built.value = tokens) ∨
    ∃ output, p.run = .ok output ∧ output.tokens = tokens

theorem HandsOver.exists_filed (handed : p.HandsOver tokens) (valid : p.config.Valid) :
    ∃ others, p.Filed tokens.files others := by
  rcases handed with ⟨built, hbuilt, rfl⟩ | ⟨output, ran, rfl⟩
  · obtain ⟨sized, colored, laid⟩ := isLaidOut_of_tokens hbuilt
    exact laid.filed valid
  · obtain ⟨sized, colored, base, laid, htokens, -⟩ := exists_isLaidOut ran
    obtain ⟨others, filed⟩ := laid.filed valid
    rw [htokens]
    exact ⟨_, filed.attached base p.options.ratios⟩

/-- **Which files can be looked up.**  In every token set that a pipeline hands over, the files with
a key, which are those of the cells, differ in key or scope, and each of them is found by these.
Without a key the file of the first primitive collection of a name is found.  So no two files have
the same key and scope exactly if no two primitive collections have the same name, and then every
file is found. -/
theorem files_found_of_create {source : Export} {config : Configuration} {options : Options}
    (created : create source config options = .ok p) :
    (∃ tokens, p.HandsOver tokens) ∧ ∀ tokens, p.HandsOver tokens →
      ((tokens.files.filter fun file => file.key ≠ {}).map TokenFile.address).Nodup ∧
      (∀ file ∈ tokens.files, file.key ≠ {} → tokens.file? file.key file.scope = some file) ∧
      (∀ name, tokens.file? {} name =
        ((source.primitives config.collections).find? fun c => c.name == name).map
          fun c => (p.primitiveFile c).value) ∧
      ((tokens.files.map TokenFile.address).Nodup ↔
        ((source.primitives config.collections).map Collection.name).Nodup) ∧
      (((source.primitives config.collections).map Collection.name).Nodup →
        ∀ file ∈ tokens.files, tokens.file? file.key file.scope = some file) := by
  obtain ⟨valid, hgraph, rfl, -⟩ := create_eq_ok_iff.mp created
  have hprimitives : (p.graph.collections.filter fun c => c.kind == .primitive) =
      source.primitives p.config.collections := by
    rw [Graph.collections_of_ofExport hgraph]
    rfl
  obtain ⟨built, hbuilt⟩ := p.exists_tokens_eq_ok
  refine ⟨⟨_, .inl ⟨built, hbuilt, rfl⟩⟩, fun tokens handed => ?_⟩
  obtain ⟨others, filed⟩ := handed.exists_filed valid
  rw [← hprimitives]
  refine ⟨?_, fun _ => filed.file?_eq_some, filed.file?_open, filed.nodup_addresses_iff, ?_⟩
  · rw [filed.filter_keyed]
    exact filed.distinct
  · intro hnames file hfile
    exact TokenSet.file?_eq_some_of_nodup (filed.nodup_addresses_iff.mpr hnames) hfile

end Pipeline

/-! ## Two collections of one name -/

namespace Sample

def widgetTokens : Logged TokenSet := widgetry.tokens.toOption.getD ⟨{}, []⟩

/-- Each of eight files is found, of which one has no key and three share a scope. -/
theorem files_found_of_widgetry :
    Pipeline.create widgetSource widgetry.config {} = .ok widgetry ∧
      ((widgetSource.primitives widgetry.config.collections).map Collection.name).Nodup ∧
      widgetry.HandsOver widgetTokens.value ∧ widgetTokens.value.files.length = 8 ∧
      ∀ file ∈ widgetTokens.value.files,
        widgetTokens.value.file? file.key file.scope = some file := by
  have hcreated : Pipeline.create widgetSource widgetry.config {} = .ok widgetry :=
    Pipeline.create_eq_ok_iff.mpr
      ⟨Configuration.validate_eq_ok_iff.mp (by decide +kernel), by decide +kernel, rfl, rfl⟩
  have hnames : ((widgetSource.primitives widgetry.config.collections).map
      Collection.name).Nodup := by decide +kernel
  have handed : widgetry.HandsOver widgetTokens.value :=
    .inl ⟨widgetTokens, Except.eq_ok_of_isOk (by decide +kernel), rfl⟩
  obtain ⟨-, hfound⟩ := Pipeline.files_found_of_create hcreated
  obtain ⟨-, -, -, -, hall⟩ := hfound widgetTokens.value handed
  exact ⟨hcreated, hnames, handed, by decide +kernel, hall hnames⟩

/-- A collection with the name of `sizes`. -/
def otherSizes : Collection := ⟨⟨"otherSizes"⟩, "_Sizes", .primitive, [⟨⟨"value"⟩, "Value"⟩]⟩

def thirtyTwo : Variable :=
  ⟨⟨"thirtyTwo"⟩, "Size/32", otherSizes.id, .float,
    Table.empty.insert ⟨"value"⟩ (.literal (.number 32))⟩

def twinSource : Export where
  collections := [sizes, otherSizes].map fun c => ⟨c.id, c.name, c.modes⟩
  nodes := [sixteen, thirtyTwo]

def twins : Pipeline where
  graph := ⟨.ofList [sizes, otherSizes], .ofList twinSource.nodes, [], []⟩
  config := { brands := [{ name := "core" }] }
  options := {}

/-- The file of the second collection has the key and the scope of the first one, so it is not
found. -/
theorem file_lost_of_twins :
    Pipeline.create twinSource twins.config {} = .ok twins ∧
      ∃ built, twins.tokens = .ok built ∧
        ¬ (built.value.files.map TokenFile.address).Nodup ∧
        ∃ file ∈ built.value.files, built.value.file? file.key file.scope ≠ some file := by
  have hcreated : Pipeline.create twinSource twins.config {} = .ok twins :=
    Pipeline.create_eq_ok_iff.mpr
      ⟨Configuration.validate_eq_ok_iff.mp (by decide +kernel), by decide +kernel, rfl, rfl⟩
  obtain ⟨built, hbuilt⟩ := twins.exists_tokens_eq_ok
  have hfacts : ∀ built ∈ twins.tokens.toOption,
      ¬ (built.value.files.map TokenFile.address).Nodup ∧
        ∃ file ∈ built.value.files, built.value.file? file.key file.scope ≠ some file := by
    decide +kernel
  exact ⟨hcreated, built, hbuilt, hfacts built (by rw [hbuilt]; rfl)⟩

end Sample

end DesignTokens
