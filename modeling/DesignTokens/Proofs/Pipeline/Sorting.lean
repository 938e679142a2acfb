import DesignTokens.Pipeline.TokenFiles
import DesignTokens.Proofs.Except
import DesignTokens.Proofs.Table

/-!
# Sorting tokens into files

The tokens of a cell are sorted one at a time: each goes to the file of its scope, and a new file is
begun where there is none.  What comes out has a closed form (`TokenFile.sortByScope_eq`): there is
one file for each scope, in the order in which the scopes first occur, and it holds the tokens with
that scope in their order.  The files are the groups of the tokens by scope
(`TokenFile.groups_addToken`).

This is said of a cell that has a list of files to itself.  In truth all cells share one list, where
each looks for a scope behind the files that it found.  Those stay as they are, also where they have
the same scope, and a cell adds to them what it would have had alone (`Pipeline.addCell_eq`).  So
the list is put together from the files of one cell after the other (`Pipeline.tokenFiles_eq`).
-/

namespace DesignTokens

namespace TokenFile

variable {key : CellKey} {entries : List (String × Token)} {scope other : String} {token : Token}

/-- The files of tokens with their scopes, where there are no other files. -/
def sortByScope (key : CellKey) (tokens : List (String × Token)) : List TokenFile :=
  tokens.foldl (fun files entry => addToken 0 key entry.1 entry.2 files) []

/-- The file of the tokens with a scope. -/
def ofScope (key : CellKey) (entries : List (String × Token)) (scope : String) : TokenFile where
  key
  scope
  tokens := (entries.filter fun entry => entry.1 == scope).map Prod.snd

/-! ## One more token -/

private theorem addToken_cons_of_eq {file : TokenFile} (h : file.scope = scope)
    (files : List TokenFile) :
    addToken 0 key scope token (file :: files) =
      { file with tokens := file.tokens ++ [token] } :: files := by
  simp [addToken, List.findIdx?_cons, h]

private theorem addToken_cons_of_ne {file : TokenFile} (h : file.scope ≠ scope)
    (files : List TokenFile) :
    addToken 0 key scope token (file :: files) = file :: addToken 0 key scope token files := by
  simp only [addToken, List.drop_zero, List.findIdx?_cons, beq_eq_false_iff_ne.mpr h]
  cases files.findIdx? fun file => file.scope == scope with
  | none => rfl
  | some i => simp

private theorem ofScope_concat_self : ofScope key (entries ++ [(scope, token)]) scope =
    { ofScope key entries scope with
      tokens := (ofScope key entries scope).tokens ++ [token] } := by
  simp [ofScope]

private theorem ofScope_concat_of_ne (h : scope ≠ other) :
    ofScope key (entries ++ [(scope, token)]) other = ofScope key entries other := by
  simp [ofScope, h]

/-- A token goes to the file of its scope. -/
theorem groups_addToken (key : CellKey) :
    Groups Prod.fst (fun entry => addToken 0 key entry.1 entry.2) (ofScope key) where
  begins := by
    intro entries entry hnew
    have hempty : (entries.filter fun other => other.1 == entry.1) = [] := by
      refine List.filter_eq_nil_iff.mpr fun other hother heq => hnew ?_
      exact List.mem_map.mpr ⟨other, hother, beq_iff_eq.mp heq⟩
    simp [addToken, ofScope, hempty]
  joins := by
    intro entries entry files _
    rw [ofScope_concat_self]
    exact addToken_cons_of_eq rfl files
  passes := fun files hne => addToken_cons_of_ne (Ne.symm hne) files
  keeps := ofScope_concat_of_ne

/-! ## All tokens -/

/-- The files of sorted tokens: one for each scope, in order of first occurrence. -/
theorem sortByScope_eq (key : CellKey) (entries : List (String × Token)) :
    sortByScope key entries = (entries.map Prod.fst).eraseDups.map (ofScope key entries) :=
  (groups_addToken key).foldl_eq entries

/-- Sorting makes up no token and puts none into the file of another scope. -/
theorem mem_of_mem_sortByScope {file : TokenFile} (hfile : file ∈ sortByScope key entries) :
    file.key = key ∧ ∀ token ∈ file.tokens, (file.scope, token) ∈ entries := by
  rw [sortByScope_eq] at hfile
  obtain ⟨scope, -, rfl⟩ := List.mem_map.mp hfile
  refine ⟨rfl, ?_⟩
  intro token htoken
  obtain ⟨entry, hentry, rfl⟩ := List.mem_map.mp htoken
  obtain ⟨hmem, hscope⟩ := List.mem_filter.mp hentry
  rw [show (ofScope key entries scope).scope = entry.1 from (beq_iff_eq.mp hscope).symm]
  exact hmem

/-! ## Behind other files -/

private theorem modify_append_length_add {α : Type} (before items : List α) (i : Nat) (f : α → α) :
    (before ++ items).modify (before.length + i) f = before ++ items.modify i f := by
  induction before with
  | nil => simp
  | cons first rest ih =>
      rw [List.length_cons, Nat.add_right_comm, List.cons_append, List.modify_succ_cons, ih,
        List.cons_append]

/-- A token for a cell leaves the files of other cells alone, which come first. -/
theorem addToken_append (before files : List TokenFile) :
    addToken before.length key scope token (before ++ files) =
      before ++ addToken 0 key scope token files := by
  simp only [addToken, List.drop_left, List.drop_zero]
  cases files.findIdx? fun file => file.scope == scope with
  | none => exact List.append_assoc _ _ _
  | some i => simp only [modify_append_length_add, Nat.zero_add]

private theorem foldl_addToken_append (before files : List TokenFile) :
    entries.foldl (fun files entry => addToken before.length key entry.1 entry.2 files)
        (before ++ files) =
      before ++ entries.foldl (fun files entry => addToken 0 key entry.1 entry.2 files) files := by
  induction entries generalizing files with
  | nil => rfl
  | cons entry rest ih => rw [List.foldl_cons, List.foldl_cons, addToken_append, ih]

end TokenFile

namespace Pipeline

variable (p : Pipeline) (select : Variable → Bool) (cell : Cell)

/-! ## Cells -/

/-- The files of a cell that has the list to itself. -/
def filesIn : Logged (List TokenFile) := p.addCell select [] cell

/-- The scope and the token of a variable. -/
def entryOf (cell : Cell) (v : Variable) : String × Token :=
  (p.scope v.path, (p.token cell.context v).value)

theorem value_addCell (files : List TokenFile) : (p.addCell select files cell).value =
    ((p.graph.nodes.filter select).map (p.entryOf cell)).foldl (fun added entry =>
      TokenFile.addToken files.length cell.key entry.1 entry.2 added) files := by
  rw [addCell, Logged.value_foldlM, List.foldl_map]
  rfl

theorem findings_addCell (files : List TokenFile) : (p.addCell select files cell).findings =
    (p.graph.nodes.filter select).flatMap fun v => (p.token cell.context v).findings :=
  Logged.findings_foldlM (fun _ _ => List.append_nil _) _ _

theorem value_filesIn : (p.filesIn select cell).value =
    TokenFile.sortByScope cell.key ((p.graph.nodes.filter select).map (p.entryOf cell)) :=
  p.value_addCell select cell []

theorem findings_filesIn : (p.filesIn select cell).findings =
    (p.graph.nodes.filter select).flatMap fun v => (p.token cell.context v).findings :=
  p.findings_addCell select cell []

/-- A cell adds its own files to those of other cells. -/
theorem addCell_eq (files : List TokenFile) : p.addCell select files cell =
    ⟨files ++ (p.filesIn select cell).value, (p.filesIn select cell).findings⟩ := by
  have hvalue : (p.addCell select files cell).value =
      files ++ (p.filesIn select cell).value := by
    rw [value_addCell, value_filesIn, TokenFile.sortByScope, ← TokenFile.foldl_addToken_append,
      List.append_nil]
  rw [← hvalue, findings_filesIn, ← p.findings_addCell select cell files]

private theorem foldlM_addCell (cells : List Cell) (files : List TokenFile) :
    cells.foldlM (p.addCell select) files =
      ⟨files ++ cells.flatMap fun cell => (p.filesIn select cell).value,
        cells.flatMap fun cell => (p.filesIn select cell).findings⟩ := by
  induction cells generalizing files with
  | nil =>
      rw [List.flatMap_nil, List.append_nil]
      rfl
  | cons cell rest ih =>
      rw [List.foldlM_cons, addCell_eq]
      ext1
      · simp only [Logged.value_bind, ih, List.append_assoc, List.flatMap_cons]
      · simp only [Logged.findings_bind, ih, List.flatMap_cons]

/-- The files of one cell come behind those of the other. -/
theorem tokenFiles_eq : p.tokenFiles = (do
    let breakpointCells ← p.breakpointCells
    let colorCells ← p.colorCells
    return do
      let primitives ← Logged.forList
        (p.graph.collections.filter fun collection => collection.kind == .primitive) p.primitiveFile
      let dimensions ← Logged.forList breakpointCells (p.filesIn p.isDimension)
      let colors ← Logged.forList colorCells (p.filesIn p.isColor)
      return primitives ++ dimensions.flatten ++ colors.flatten) := by
  simp only [tokenFiles, foldlM_addCell]
  refine congrArg _ (funext fun sized => congrArg _ (funext fun colored => congrArg _ ?_))
  ext1
  · simp [List.flatMap_def]
  · simp

/-- Where there are files, there are cells that they come from. -/
theorem exists_cells_of_tokenFiles {p : Pipeline} {files : Logged (List TokenFile)}
    (h : p.tokenFiles = .ok files) :
    ∃ sized colored, p.breakpointCells = .ok sized ∧ p.colorCells = .ok colored ∧ files = do
      let primitives ← Logged.forList
        (p.graph.collections.filter fun collection => collection.kind == .primitive) p.primitiveFile
      let dimensions ← Logged.forList sized (p.filesIn p.isDimension)
      let colors ← Logged.forList colored (p.filesIn p.isColor)
      return primitives ++ dimensions.flatten ++ colors.flatten := by
  rw [tokenFiles_eq] at h
  obtain ⟨sized, hsized, h⟩ := Except.bind_eq_ok_iff.mp h
  obtain ⟨colored, hcolored, h⟩ := Except.bind_eq_ok_iff.mp h
  exact ⟨sized, colored, hsized, hcolored, (Except.pure_eq_ok_iff.mp h).symm⟩

end Pipeline

end DesignTokens
