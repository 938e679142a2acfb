import DesignTokens.Proofs.Diagnostics
import DesignTokens.Proofs.Table
import Mathlib.Algebra.GroupWithZero.Nat

/-!
# Merging is replaying

Diagnostics are gathered by pushing findings and by merging in what was gathered elsewhere, in the
same way and so on to any depth.  A `History` says how.  Of a history only the findings matter, in
the order in which they would have been pushed one after the other (`History.diagnostics_eq`), and
what they amount to can be written down without pushing any (`Diagnostics.entries_pushAll`): there
is one entry for each kind and subject, in order of first occurrence, with the detail of the first
finding and the number of all.

## Strategy

An entry that is merged in is pushed as one finding, and its other occurrences are counted after
that, which comes to counting all of them at once (`Diagnostics.entries_absorb_of_pos`).  So it is
enough to merge in one more finding, because what was pushed last is merged in last
(`Diagnostics.merge_push`).  The entry that the finding adds to may stand anywhere among those to
merge, so its occurrence is added too early.  That does no harm: once a kind and a subject have an
entry, further occurrences can be added to it before or after anything else
(`Diagnostics.raise_comm`).
-/

namespace DesignTokens

namespace Diagnostics

variable {entries : List Diagnostic} {finding other : Finding} {m n : Nat} {topic : Topic}

/-! ## When occurrences are added -/

/-- Occurrences of one topic can be added at once. -/
theorem raise_raise (h : finding.topic = other.topic) (entries : List Diagnostic) :
    raise finding m (raise other n entries) = raise other (n + m) entries := by
  induction entries with
  | nil => exact raise_cons_of_topic_eq h.symm
  | cons first rest ih =>
      by_cases hfirst : first.topic = other.topic
      · simp [raise_cons_of_topic_eq, hfirst, h, Diagnostic.more_more]
      · simp [raise_cons_of_topic_ne, hfirst, h, ih]

/-- What is added to an entry that exists already may be added before or after anything else. -/
theorem raise_comm (h : finding.topic ∈ entries.map Diagnostic.topic) :
    raise other n (raise finding m entries) = raise finding m (raise other n entries) := by
  induction entries with
  | nil => cases h
  | cons first rest ih =>
      by_cases hfinding : first.topic = finding.topic
      · by_cases hother : first.topic = other.topic
        · simp [raise_cons_of_topic_eq, hfinding, ← hother, Diagnostic.more_more, Nat.add_comm]
        · have hmore : (first.more m).topic ≠ other.topic := hother
          rw [raise_cons_of_topic_eq hfinding, raise_cons_of_topic_ne hother,
            raise_cons_of_topic_ne hmore, raise_cons_of_topic_eq hfinding]
      · by_cases hother : first.topic = other.topic
        · have hmore : (first.more n).topic ≠ finding.topic := hfinding
          rw [raise_cons_of_topic_ne hfinding, raise_cons_of_topic_eq hother,
            raise_cons_of_topic_eq hother, raise_cons_of_topic_ne hmore]
        -- neither is about the first entry, so the one that exists is further behind
        · have hrest : finding.topic ∈ rest.map Diagnostic.topic :=
            (List.mem_cons.mp h).resolve_left (Ne.symm hfinding)
          simp [raise_cons_of_topic_ne, hfinding, hother, ih hrest]

/-! ## Merging -/

/-- Every entry was found at least once. -/
def Counted (ds : Diagnostics) : Prop := ∀ d ∈ ds.entries, 0 < d.occurrences

private theorem occurrences_pos_of_mem_raise (hn : 0 < n) (h : ∀ d ∈ entries, 0 < d.occurrences) :
    ∀ d ∈ raise finding n entries, 0 < d.occurrences := by
  induction entries with
  | nil => simpa [raise] using hn
  | cons first rest ih =>
      obtain ⟨hfirst, hrest⟩ := List.forall_mem_cons.mp h
      by_cases habout : first.topic = finding.topic
      · rw [raise_cons_of_topic_eq habout]
        exact List.forall_mem_cons.mpr ⟨Nat.add_pos_left hfirst n, hrest⟩
      · rw [raise_cons_of_topic_ne habout]
        exact List.forall_mem_cons.mpr ⟨hfirst, ih hrest⟩

theorem Counted.push {ds : Diagnostics} (counted : ds.Counted) (finding : Finding) :
    (ds.push finding).Counted := by
  rw [Counted, entries_push]
  exact occurrences_pos_of_mem_raise Nat.one_pos counted

private theorem counted_pushAll (findings : List Finding) : (pushAll {} findings).Counted := by
  induction findings using List.reverseRecOn with
  | nil => exact List.forall_mem_nil _
  | append_singleton findings finding ih =>
      rw [pushAll, List.foldl_append]
      exact ih.push finding

/-- Entries with all occurrences of one more entry. -/
def addUp (entries : List Diagnostic) (d : Diagnostic) : List Diagnostic :=
  raise d.finding d.occurrences entries

/-- To push the first finding and to count the others is to count all of them. -/
theorem entries_absorb_of_pos (ds : Diagnostics) {d : Diagnostic} (h : 0 < d.occurrences) :
    (ds.absorb d).entries = addUp ds.entries d := by
  have hall : 1 + (d.occurrences - 1) = d.occurrences := Nat.add_sub_of_le h
  rw [entries_absorb, raise_raise rfl, hall]
  rfl

theorem entries_merge (ds : Diagnostics) {other : Diagnostics} (counted : other.Counted) :
    (ds.merge other).entries = other.entries.foldl addUp ds.entries := by
  unfold merge
  unfold Counted at counted
  generalize other.entries = others at counted
  induction others generalizing ds with
  | nil => rfl
  | cons d rest ih =>
      obtain ⟨hfirst, hrest⟩ := List.forall_mem_cons.mp counted
      rw [List.foldl_cons, List.foldl_cons, ih (ds.absorb d) hrest,
        entries_absorb_of_pos ds hfirst]

private theorem foldl_addUp_raise {others : List Diagnostic}
    (h : finding.topic ∈ entries.map Diagnostic.topic) :
    others.foldl addUp (raise finding n entries) =
      raise finding n (others.foldl addUp entries) := by
  induction others generalizing entries with
  | nil => rfl
  | cons d rest ih =>
      have hkept : finding.topic ∈ (addUp entries d).map Diagnostic.topic :=
        mem_topics_raise_iff.mpr (.inl h)
      have hcomm : addUp (raise finding n entries) d = raise finding n (addUp entries d) :=
        raise_comm h
      rw [List.foldl_cons, List.foldl_cons, hcomm, ih hkept]

/-- Occurrences that are added to the entries to merge may be added after merging them. -/
theorem foldl_addUp_of_raise (others entries : List Diagnostic) :
    (raise finding n others).foldl addUp entries =
      raise finding n (others.foldl addUp entries) := by
  induction others generalizing entries with
  | nil => rfl
  | cons d rest ih =>
      by_cases h : d.topic = finding.topic
      · have hadded : addUp entries (d.more n) = raise finding n (addUp entries d) :=
          (raise_raise h.symm entries).symm
        have hpresent : finding.topic ∈ (addUp entries d).map Diagnostic.topic :=
          mem_topics_raise_iff.mpr (.inr h.symm)
        rw [raise_cons_of_topic_eq h, List.foldl_cons, List.foldl_cons, hadded,
          foldl_addUp_raise hpresent]
      · rw [raise_cons_of_topic_ne h, List.foldl_cons, List.foldl_cons, ih]

/-- What was pushed last is merged in last. -/
theorem merge_push (ds : Diagnostics) {other : Diagnostics} (counted : other.Counted)
    (finding : Finding) : ds.merge (other.push finding) = (ds.merge other).push finding := by
  apply ext
  rw [entries_merge ds (counted.push finding), entries_push, entries_push,
    entries_merge ds counted]
  exact foldl_addUp_of_raise other.entries ds.entries

theorem pushAll_append (ds : Diagnostics) (findings others : List Finding) :
    ds.pushAll (findings ++ others) = (ds.pushAll findings).pushAll others :=
  List.foldl_append

/-- To merge in what was gathered elsewhere is to push its findings again. -/
theorem merge_pushAll (ds : Diagnostics) (findings : List Finding) :
    ds.merge (pushAll {} findings) = ds.pushAll findings := by
  induction findings using List.reverseRecOn with
  | nil => rfl
  | append_singleton findings finding ih =>
      rw [pushAll_append, pushAll_append, ← ih]
      exact merge_push ds (counted_pushAll findings) finding

/-! ## The entries of findings -/

/-- The entry of a topic for all findings about it. -/
def entryOf (findings : List Finding) (topic : Topic) : Diagnostic where
  kind := topic.kind
  subject := topic.subject
  detail := ((findings.find? fun finding => finding.topic = topic).map Finding.detail).getD ""
  occurrences := findings.countP fun finding => finding.topic = topic

variable {findings : List Finding}

/-- A finding about a new topic gives its entry the detail. -/
theorem entryOf_concat_new (h : finding.topic ∉ findings.map Finding.topic) :
    entryOf (findings ++ [finding]) finding.topic = finding.entry := by
  have hnone : ∀ other ∈ findings, other.topic ≠ finding.topic :=
    fun other hother heq => h (List.mem_map.mpr ⟨other, hother, heq⟩)
  have hfind : (findings.find? fun other => other.topic = finding.topic) = none := by
    simpa using hnone
  have hcount : (findings.countP fun other => other.topic = finding.topic) = 0 := by
    simpa using hnone
  simp [entryOf, Finding.entry, hfind, hcount]

/-- A further finding about a topic counts, and does not change the detail. -/
theorem entryOf_concat_self (h : finding.topic ∈ findings.map Finding.topic) :
    entryOf (findings ++ [finding]) finding.topic = (entryOf findings finding.topic).more 1 := by
  obtain ⟨earlier, hearlier, htopic⟩ := List.mem_map.mp h
  have hsome : (findings.find? fun other => other.topic = finding.topic).isSome :=
    List.find?_isSome.mpr ⟨earlier, hearlier, decide_eq_true htopic⟩
  obtain ⟨first, hfirst⟩ := Option.isSome_iff_exists.mp hsome
  simp [entryOf, Diagnostic.more, hfirst]

private theorem entryOf_concat_of_ne (h : finding.topic ≠ topic) :
    entryOf (findings ++ [finding]) topic = entryOf findings topic := by
  simp [entryOf, h]

/-- A finding goes to the entry of its topic. -/
theorem groups_raise : Groups Finding.topic (fun finding => raise finding 1) entryOf where
  begins := by
    intro findings finding hnew
    rw [entryOf_concat_new hnew]
    rfl
  joins := by
    intro findings finding entries hold
    rw [entryOf_concat_self hold]
    exact raise_cons_of_topic_eq rfl
  passes := fun entries hne => raise_cons_of_topic_ne (Ne.symm hne)
  keeps := entryOf_concat_of_ne

/-- There is one entry for each topic, in order of first occurrence. -/
theorem entries_pushAll (findings : List Finding) : (pushAll {} findings).entries =
    (findings.map Finding.topic).eraseDups.map (entryOf findings) := by
  rw [entries_pushAll_eq_foldl]
  exact groups_raise.foldl_eq findings

theorem topics_pushAll (findings : List Finding) :
    (pushAll {} findings).entries.map Diagnostic.topic =
      (findings.map Finding.topic).eraseDups := by
  rw [entries_pushAll, List.map_map]
  exact List.map_id _

/-! ## Counts -/

/-- A kind is counted once for each subject that it has findings about. -/
theorem count_pushAll (findings : List Finding) (kind : FindingKind) :
    (pushAll {} findings).count kind =
      ((findings.filter fun finding => finding.kind = kind).map
        Finding.subject).eraseDups.length := by
  have hcount : (pushAll {} findings).count kind =
      (((findings.map Finding.topic).eraseDups.filter fun topic => topic.kind = kind).map
        Topic.subject).length := by
    rw [← topics_pushAll, count, ofKind, List.length_map, List.filter_map, List.length_map]
    rfl
  -- of one kind, topics with the same subject are the same
  have hnodup : (((findings.map Finding.topic).eraseDups.filter
      fun topic => topic.kind = kind).map Topic.subject).Nodup := by
    refine List.Nodup.map_on ?_ ((nodup_eraseDups _).filter _)
    intro topic htopic other hother heq
    have hkind := (List.mem_filter.mp htopic).2
    have hkind' := (List.mem_filter.mp hother).2
    simp only [decide_eq_true_eq] at hkind hkind'
    exact Topic.ext (hkind.trans hkind'.symm) heq
  rw [hcount]
  refine ((List.perm_ext_iff_of_nodup hnodup (nodup_eraseDups _)).mpr fun subject => ?_).length_eq
  simp only [List.mem_eraseDups, List.mem_map, List.mem_filter]
  constructor
  · rintro ⟨topic, ⟨⟨finding, hfinding, rfl⟩, hkind⟩, rfl⟩
    exact ⟨finding, ⟨hfinding, hkind⟩, rfl⟩
  · rintro ⟨finding, ⟨hfinding, hkind⟩, rfl⟩
    exact ⟨finding.topic, ⟨⟨finding, hfinding, rfl⟩, hkind⟩, rfl⟩

private theorem sum_occurrences_raise (entries : List Diagnostic) :
    ((raise finding n entries).map Diagnostic.occurrences).sum =
      (entries.map Diagnostic.occurrences).sum + n := by
  induction entries with
  | nil => simp [raise]
  | cons first rest ih =>
      by_cases h : first.topic = finding.topic
      · rw [raise_cons_of_topic_eq h]
        simp only [List.map_cons, List.sum_cons, Diagnostic.more]
        omega
      · rw [raise_cons_of_topic_ne h]
        simp only [List.map_cons, List.sum_cons, ih]
        omega

/-- No finding is lost. -/
theorem sum_occurrences_pushAll (ds : Diagnostics) (findings : List Finding) :
    ((ds.pushAll findings).entries.map Diagnostic.occurrences).sum =
      (ds.entries.map Diagnostic.occurrences).sum + findings.length := by
  induction findings generalizing ds with
  | nil => rfl
  | cons finding rest ih =>
      have hpushed : ((ds.push finding).entries.map Diagnostic.occurrences).sum =
          (ds.entries.map Diagnostic.occurrences).sum + 1 := by
        rw [entries_push, sum_occurrences_raise]
      show (((ds.push finding).pushAll rest).entries.map Diagnostic.occurrences).sum = _
      rw [ih, hpushed, List.length_cons]
      omega

/-- Every entry is of one kind. -/
theorem sum_counts (ds : Diagnostics) : (FindingKind.all.map ds.count).sum = ds.size := by
  simp only [FindingKind.all, count, ofKind, size, List.map_cons, List.map_nil, List.sum_cons,
    List.sum_nil]
  generalize ds.entries = entries
  induction entries with
  | nil => rfl
  | cons d rest ih =>
      cases h : d.kind <;> simp [h] <;> omega

end Diagnostics

/-! ## Histories -/

/-- How diagnostics were gathered. -/
inductive History where
  | empty
  | push (history : History) (finding : Finding)
  /-- What another history gathered is merged in. -/
  | merge (history other : History)

namespace History

def diagnostics : History → Diagnostics
  | empty => {}
  | push history finding => history.diagnostics.push finding
  | merge history other => history.diagnostics.merge other.diagnostics

/-- All findings that were pushed, first ones first. -/
def findings : History → List Finding
  | empty => []
  | push history finding => history.findings ++ [finding]
  | merge history other => history.findings ++ other.findings

theorem diagnostics_eq (history : History) :
    history.diagnostics = .pushAll {} history.findings := by
  induction history with
  | empty => rfl
  | push history finding ih =>
      rw [diagnostics, findings, ih, Diagnostics.pushAll_append]
      rfl
  | merge history other ih ih' =>
      rw [diagnostics, findings, ih, ih', Diagnostics.merge_pushAll, Diagnostics.pushAll_append]

private theorem merge_assoc (first second third : History) :
    ((first.merge second).merge third).diagnostics =
      (first.merge (second.merge third)).diagnostics := by
  simp only [diagnostics_eq, findings, List.append_assoc]

/-- **Merging is replaying.**  However diagnostics were gathered, they are what pushing all findings
one after the other gives.  There is one entry for each kind and subject, in order of first
occurrence, with the detail of the first finding and the number of all, and the index says where it
stands.  So merging is associative, no two entries have the same kind and subject, the occurrences
are as many as the findings, and the counts of all kinds together are the number of entries. -/
theorem diagnostics_replay (history : History) :
    history.diagnostics = .pushAll {} history.findings ∧
      (history.diagnostics.entries =
        (history.findings.map Finding.topic).eraseDups.map fun topic =>
          { kind := topic.kind
            subject := topic.subject
            detail := ((history.findings.find? fun finding => finding.topic = topic).map
              Finding.detail).getD ""
            occurrences := history.findings.countP fun finding => finding.topic = topic }) ∧
      (∀ topic i, history.diagnostics.seen.get? topic = some i ↔
        (history.findings.map Finding.topic).eraseDups[i]? = some topic) ∧
      (∀ second third : History,
        (history.diagnostics.merge second.diagnostics).merge third.diagnostics =
          history.diagnostics.merge (second.diagnostics.merge third.diagnostics)) ∧
      (history.diagnostics.entries.map Diagnostic.topic).Nodup ∧
      (history.diagnostics.entries.map Diagnostic.occurrences).sum = history.findings.length ∧
      (FindingKind.all.map history.diagnostics.count).sum = history.diagnostics.size := by
  refine ⟨history.diagnostics_eq, ?_, ?_, history.merge_assoc, ?_, ?_, Diagnostics.sum_counts _⟩
  · rw [diagnostics_eq, Diagnostics.entries_pushAll]
    rfl
  · rw [diagnostics_eq, ← Diagnostics.topics_pushAll]
    exact Diagnostics.located _
  · rw [diagnostics_eq, Diagnostics.topics_pushAll]
    exact nodup_eraseDups _
  · rw [diagnostics_eq, Diagnostics.sum_occurrences_pushAll]
    exact Nat.zero_add _

/-- What is merged in joins the entry that is there already, which keeps its detail. -/
example :
    let early : Finding := ⟨.missingVariable, "ink", "referenced from <root>"⟩
    let late : Finding := ⟨.missingVariable, "ink", "referenced from Text/body"⟩
    let circle : Finding := ⟨.circularReference, "ink", "ink -> ink"⟩
    ((empty.push early).merge (((empty.push circle).push late).push late)).diagnostics.entries =
      [{ early.entry with occurrences := 3 }, circle.entry] := by
  decide +kernel

end History

end DesignTokens
