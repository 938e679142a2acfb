import DesignTokens.Table.Positions

/-!
# Diagnostics

Problems with the data do not stop a run.  Each is noted as a `Finding` beside the value that takes
the place of the wanted one: `Logged` pairs a result with the findings made on the way to it.

`Diagnostics` gathers findings.  Two findings of one kind about one subject are one entry, which
counts how often it came up and keeps the detail of the first.  The entry of a finding is found by
an index, and that index and entries agree is part of the type.
-/

namespace DesignTokens

inductive FindingKind where
  /-- An alias or a binding names a variable that does not exist. -/
  | missingVariable
  /-- A chain of aliases comes back to one of its variables. -/
  | circularReference
  /-- A variable holds no entry at all. -/
  | noValueForMode
  /-- One line height goes with two ratios in one cell. -/
  | ratioConflict
  /-- A line height is left without a ratio. -/
  | missingRatio
  deriving DecidableEq, Inhabited

namespace FindingKind

def all : List FindingKind :=
  [.missingVariable, .circularReference, .noValueForMode, .ratioConflict, .missingRatio]

def text : FindingKind → String
  | .missingVariable => "missing variable"
  | .circularReference => "circular reference"
  | .noValueForMode => "no value for mode"
  | .ratioConflict => "ratio conflict"
  | .missingRatio => "unresolved enrichment"

/-- The place of a kind in `all`. -/
def rank : FindingKind → Nat
  | .missingVariable => 0
  | .circularReference => 1
  | .noValueForMode => 2
  | .ratioConflict => 3
  | .missingRatio => 4

instance : Ord FindingKind := ⟨compareOn rank⟩

instance : Std.TransOrd FindingKind := inferInstanceAs (Std.TransCmp (compareOn rank))

instance : Std.LawfulEqOrd FindingKind :=
  lawfulEqCmp_compareOn fun {a b} h => by cases a <;> cases b <;> first | rfl | cases h

end FindingKind

/-- What a finding is about. -/
@[ext]
structure Topic where
  kind : FindingKind
  subject : String
  deriving DecidableEq

namespace Topic

instance : Ord Topic := ⟨compareLex (compareOn kind) (compareOn subject)⟩

instance : Std.TransOrd Topic :=
  inferInstanceAs <| Std.TransCmp <| compareLex (compareOn kind) (compareOn subject)

instance : Std.LawfulEqOrd Topic := .mk fun {a b} h => by
  replace h : compareLex (compareOn kind) (compareOn subject) a b = .eq := h
  simp only [compareLex_eq_eq, compareOn, Std.compare_eq_iff_eq] at h
  exact Topic.ext h.1 h.2

end Topic

structure Finding where
  kind : FindingKind
  subject : String
  detail : String
  deriving DecidableEq, Inhabited

namespace Finding

def topic (finding : Finding) : Topic := ⟨finding.kind, finding.subject⟩

@[simp] theorem kind_topic (finding : Finding) : finding.topic.kind = finding.kind := rfl

@[simp] theorem subject_topic (finding : Finding) : finding.topic.subject = finding.subject := rfl

end Finding

/-! ## Results with findings -/

/-- A result and the findings made on the way to it, first ones first. -/
@[ext]
structure Logged (α : Type) where
  value : α
  findings : List Finding := []
  deriving DecidableEq

namespace Logged

variable {α β : Type}

instance : Monad Logged where
  pure value := ⟨value, []⟩
  bind x f :=
    let y := f x.value
    ⟨y.value, x.findings ++ y.findings⟩

instance : LawfulMonad Logged := LawfulMonad.mk' Logged
  (fun x => Logged.ext rfl (List.append_nil _))
  (fun _ _ => Logged.ext rfl (List.nil_append _))
  (fun _ _ _ => Logged.ext rfl (List.append_assoc _ _ _))

@[simp] theorem value_pure (value : α) : (pure value : Logged α).value = value := rfl

@[simp] theorem findings_pure (value : α) : (pure value : Logged α).findings = [] := rfl

@[simp] theorem value_bind (x : Logged α) (f : α → Logged β) :
    (x >>= f).value = (f x.value).value := rfl

@[simp] theorem findings_bind (x : Logged α) (f : α → Logged β) :
    (x >>= f).findings = x.findings ++ (f x.value).findings := rfl

@[simp] theorem value_map (f : α → β) (x : Logged α) : (f <$> x).value = f x.value := rfl

@[simp] theorem findings_map (f : α → β) (x : Logged α) : (f <$> x).findings = x.findings :=
  List.append_nil _

/-- A result together with one finding. -/
def note (value : α) (finding : Finding) : Logged α := ⟨value, [finding]⟩

/-- The results of all items in order. -/
def forList (items : List α) (f : α → Logged β) : Logged (List β) :=
  let results := items.map f
  ⟨results.map value, results.flatMap findings⟩

@[simp] theorem value_forList (items : List α) (f : α → Logged β) :
    (forList items f).value = items.map fun item => (f item).value := by
  simp [forList, Function.comp_def]

@[simp] theorem findings_forList (items : List α) (f : α → Logged β) :
    (forList items f).findings = items.flatMap fun item => (f item).findings := by
  simp [forList, List.flatMap_map]

theorem value_foldlM (items : List α) (step : β → α → Logged β) (start : β) :
    (items.foldlM step start).value =
      items.foldl (fun state item => (step state item).value) start := by
  induction items generalizing start with
  | nil => rfl
  | cons item rest ih => exact ih _

/-- Steps that note the same whatever there was before note one after the other. -/
theorem findings_foldlM {step : β → α → Logged β} {noted : α → List Finding}
    (h : ∀ state item, (step state item).findings = noted item) (items : List α) (start : β) :
    (items.foldlM step start).findings = items.flatMap noted := by
  induction items generalizing start with
  | nil => rfl
  | cons item rest ih =>
    rw [List.foldlM_cons, findings_bind, h, ih, List.flatMap_cons]

/-- Whether a test holds of some item.  Items behind the first such one are not tested. -/
def anyOf (items : List α) (test : α → Logged Bool) : Logged Bool :=
  match items with
  | [] => pure false
  | item :: rest => do
    if ← test item then return true else anyOf rest test

end Logged

/-! ## Gathered findings -/

structure Diagnostic where
  kind : FindingKind
  subject : String
  /-- The detail of the first finding. -/
  detail : String
  /-- How many findings there were. -/
  occurrences : Nat
  deriving DecidableEq, Inhabited

namespace Diagnostic

def topic (d : Diagnostic) : Topic := ⟨d.kind, d.subject⟩

/-- The first finding of an entry. -/
def finding (d : Diagnostic) : Finding := ⟨d.kind, d.subject, d.detail⟩

@[simp] theorem topic_finding (d : Diagnostic) : d.finding.topic = d.topic := rfl

/-- An entry with some more occurrences. -/
def more (d : Diagnostic) (n : Nat) : Diagnostic := { d with occurrences := d.occurrences + n }

@[simp] theorem topic_more (d : Diagnostic) (n : Nat) : (d.more n).topic = d.topic := rfl

theorem more_more (d : Diagnostic) (m n : Nat) : (d.more m).more n = d.more (m + n) := by
  simp only [more, Nat.add_assoc]

end Diagnostic

/-- The entry that a finding begins. -/
def Finding.entry (finding : Finding) : Diagnostic :=
  ⟨finding.kind, finding.subject, finding.detail, 1⟩

@[simp] theorem Finding.topic_entry (finding : Finding) : finding.entry.topic = finding.topic := rfl

structure Diagnostics where
  /-- The entries in the order of their first findings. -/
  entries : List Diagnostic := []
  /-- Where the topics stand among the entries. -/
  seen : Table Topic Nat := .empty
  located : seen.Locates (entries.map Diagnostic.topic) := by exact .nil

namespace Diagnostics

instance : Inhabited Diagnostics := ⟨{}⟩

/-- The entry of a topic. -/
def position? (ds : Diagnostics) (topic : Topic) : Option (Fin ds.entries.length) :=
  (ds.seen.get? topic).pmap Fin.mk fun _ h => by simpa using ds.located.lt_length h

theorem get?_seen_of_position? {ds : Diagnostics} {topic : Topic}
    (h : ds.position? topic = none) : ds.seen.get? topic = none := by
  simpa [position?] using h

/-- Some more occurrences of an entry that is there. -/
def bump (ds : Diagnostics) (i : Fin ds.entries.length) (times : Nat) : Diagnostics where
  entries := ds.entries.set i (ds.entries[i].more times)
  seen := ds.seen
  located := by
    rw [map_set_of_eq i (Diagnostic.topic_more _ _)]
    exact ds.located

/-- A finding begins an entry or is one more occurrence of the entry of its topic. -/
def push (ds : Diagnostics) (finding : Finding) : Diagnostics :=
  match position : ds.position? finding.topic with
  | some i => ds.bump i 1
  | none =>
    { entries := ds.entries ++ [finding.entry]
      seen := ds.seen.insert finding.topic ds.entries.length
      located := by simpa using ds.located.concat (get?_seen_of_position? position) }

def pushAll (ds : Diagnostics) (findings : List Finding) : Diagnostics := findings.foldl push ds

/-- An entry added: its first finding is pushed, and then its further occurrences are counted. -/
def absorb (ds : Diagnostics) (d : Diagnostic) : Diagnostics :=
  let pushed := ds.push d.finding
  match pushed.position? d.topic with
  | some i => pushed.bump i (d.occurrences - 1)
  | none => pushed

/-- The entries of one accumulator added to another. -/
def merge (ds other : Diagnostics) : Diagnostics := other.entries.foldl absorb ds

def ofKind (ds : Diagnostics) (kind : FindingKind) : List Diagnostic :=
  ds.entries.filter fun d => d.kind == kind

def count (ds : Diagnostics) (kind : FindingKind) : Nat := (ds.ofKind kind).length

def size (ds : Diagnostics) : Nat := ds.entries.length

def isEmpty (ds : Diagnostics) : Bool := ds.entries.isEmpty

end Diagnostics

end DesignTokens
