import DesignTokens.Error
import DesignTokens.Export
import DesignTokens.Configuration
import DesignTokens.Table.Catalog

/-!
# Variable graphs

A `Graph` is an index over an export whose parts fit together: ids name one thing each, each
collection has a mode, and each variable belongs to a collection and has entries for modes of that
collection only.  Aliases may name variables that do not exist; that comes to light where a chain
reaches them.

`Graph.ofExport` takes the parts into the index in the order of declaration and stops at the first
that does not fit.  An id that is there twice shows only after the fact, when inserting under it
gives something back.  A variable is declared in the form in which it is kept; its entries are taken
over one at a time, each after its mode is checked.
-/

namespace DesignTokens

structure Graph where
  collectionIndex : Catalog Collection.id
  nodeIndex : Catalog Variable.id
  textStyles : List TextStyle
  effectStyles : List EffectStyle
  deriving DecidableEq, Inhabited

namespace Graph

/-! ## From an export -/

/-- The kind of a collection: the first override of its name, or what its name suggests. -/
def kindOf (overrides : List KindOverride) (name : String) : CollectionKind :=
  match overrides.find? fun override => override.name == name with
  | some override => override.kind
  | none => .ofName name

/-- The collection of a declaration. -/
def collectionOf (overrides : List KindOverride) (declared : CollectionDeclaration) : Collection :=
  ⟨declared.id, declared.name, kindOf overrides declared.name, declared.modes⟩

/-- Collections with one more. -/
def addCollection (overrides : List KindOverride) (collections : Catalog Collection.id)
    (declared : CollectionDeclaration) : Except ExportProblem (Catalog Collection.id) :=
  if declared.modes.isEmpty then .error (.noModes declared.name)
  else match collections.add? (collectionOf overrides declared) with
    | none => .error (.repeatedCollection declared.id)
    | some collections => .ok collections

/-- Entries of a variable with one more, which has to be for a mode of its collection. -/
def addEntry (collection : Collection) (path : String) (entries : Table ModeId Entry)
    (slot : ModeId × Entry) : Except ExportProblem (Table ModeId Entry) :=
  if collection.hasMode slot.1 then .ok (entries.insert slot.1 slot.2)
  else .error (.foreignMode path slot.1 collection.name)

/-- Variables with one more, which has to fit the collections. -/
def addVariable (collections : Catalog Collection.id) (nodes : Catalog Variable.id)
    (declared : Variable) : Except ExportProblem (Catalog Variable.id) :=
  match collections.find? declared.collection with
  | none => .error (.unknownCollection declared.path declared.collection)
  | some collection => do
    let entries ← declared.entries.entries.foldlM (addEntry collection declared.path) .empty
    match nodes.add? { declared with entries } with
    | none => .error (.repeatedVariable declared.id)
    | some nodes => .ok nodes

/-- The graph of an export, where overrides say of what kind some collections are. -/
def ofExport (source : Export) (overrides : List KindOverride) : Except ExportProblem Graph := do
  let collections ← source.collections.foldlM (addCollection overrides) .empty
  let nodes ← source.nodes.foldlM (addVariable collections) .empty
  return ⟨collections, nodes, source.textStyles, source.effectStyles⟩

/-! ## Look-up -/

variable (g : Graph)

/-- The collections in the order of declaration. -/
def collections : List Collection := g.collectionIndex.values

/-- The variables in the order of declaration. -/
def nodes : List Variable := g.nodeIndex.values

def find? (id : VariableId) : Option Variable := g.nodeIndex.find? id

def variableByPath? (path : String) : Option Variable := g.nodes.find? fun v => v.path == path

def collection? (id : CollectionId) : Option Collection := g.collectionIndex.find? id

/-- Variables are found by their ids. -/
theorem find?_eq_some_iff {g : Graph} {id : VariableId} {v : Variable} :
    g.find? id = some v ↔ v ∈ g.nodes ∧ v.id = id :=
  g.nodeIndex.find?_eq_some_iff

/-- Collections are found by their ids. -/
theorem collection?_eq_some_iff {g : Graph} {id : CollectionId} {c : Collection} :
    g.collection? id = some c ↔ c ∈ g.collections ∧ c.id = id :=
  g.collectionIndex.find?_eq_some_iff

/-- The kind of the collection of a variable. -/
def kind? (v : Variable) : Option CollectionKind :=
  (g.collection? v.collection).map Collection.kind

/-- The variables of a collection. -/
def variablesIn (id : CollectionId) : List Variable := g.nodes.filter fun v => v.collection == id

/-- How a variable is named in findings: by its path, or by its id if there is no such variable. -/
def pathOf (id : VariableId) : String :=
  match g.find? id with
  | some v => v.path
  | none => id.text

end Graph

end DesignTokens
