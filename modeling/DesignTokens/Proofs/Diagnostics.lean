import DesignTokens.Summary
import DesignTokens.Proofs.Except
import DesignTokens.Proofs.Table

/-!
# Gathering findings loses none

Two findings about one topic share an entry, which is found by the index.  Since index and entries
agree, this comes to looking for it among the entries (`Diagnostics.entries_push`), and nothing but
the entries matters (`Diagnostics.ext`).

The entries are fewer than the findings.  What is kept is said in two ways.

* A topic has an entry exactly if there was a finding about it (`mem_topics_pushAll_iff`).  That a
  kind has an entry at all is what summaries count and what policies ask for
  (`exists_mem_pushAll_iff`, `Summary.enforce_eq_ok_iff`).
* The occurrences of a kind, all entries together, are as many as its findings
  (`occurrences_pushAll`).

Entries of a kind are not touched by findings of other kinds (`ofKind_pushAll_of_ne`).
-/

namespace DesignTokens

namespace Diagnostics

variable {ds : Diagnostics} {kind : FindingKind} {finding : Finding} {findings : List Finding}
  {entries : List Diagnostic} {topic : Topic} {times : Nat}

/-- Diagnostics with the same entries are the same, for the entries have one index only. -/
theorem ext {ds other : Diagnostics} (h : ds.entries = other.entries) : ds = other := by
  obtain ⟨entries, seen, located⟩ := ds
  obtain ⟨others, seen', located'⟩ := other
  cases h
  cases Table.Locates.unique located located'
  rfl

private theorem nodup_topics (ds : Diagnostics) : (ds.entries.map Diagnostic.topic).Nodup :=
  ds.located.nodup

/-! ## Looking for the entry -/

/-- Entries with some more occurrences of a finding, whose entry is looked for among them. -/
def raise (finding : Finding) (times : Nat) : List Diagnostic → List Diagnostic
  | [] => [⟨finding.kind, finding.subject, finding.detail, times⟩]
  | d :: rest =>
    if d.topic = finding.topic then d.more times :: rest else d :: raise finding times rest

theorem raise_cons_of_topic_eq {d : Diagnostic} (h : d.topic = finding.topic) :
    raise finding times (d :: entries) = d.more times :: entries :=
  if_pos h

theorem raise_cons_of_topic_ne {d : Diagnostic} (h : d.topic ≠ finding.topic) :
    raise finding times (d :: entries) = d :: raise finding times entries :=
  if_neg h

private theorem raise_of_not_mem (h : finding.topic ∉ entries.map Diagnostic.topic) :
    raise finding times entries =
      entries ++ [⟨finding.kind, finding.subject, finding.detail, times⟩] := by
  induction entries with
  | nil => rfl
  | cons first rest ih =>
      rw [List.map_cons, List.mem_cons, not_or] at h
      rw [raise_cons_of_topic_ne (Ne.symm h.1), ih h.2, List.cons_append]

/-- Among entries of distinct topics the one at a position is the only one of its topic. -/
theorem raise_eq_set (hnodup : (entries.map Diagnostic.topic).Nodup) {i : Nat}
    (hi : i < entries.length) (h : entries[i].topic = finding.topic) :
    raise finding times entries = entries.set i (entries[i].more times) := by
  induction entries generalizing i with
  | nil => cases hi
  | cons first rest ih =>
      obtain ⟨hfresh, hrest⟩ := List.nodup_cons.mp hnodup
      cases i with
      | zero => exact raise_cons_of_topic_eq h
      | succ i =>
          have hlater : i < rest.length := Nat.lt_of_succ_lt_succ hi
          have hne : first.topic ≠ finding.topic := by
            intro heq
            refine hfresh (List.mem_map.mpr ⟨rest[i], List.getElem_mem hlater, ?_⟩)
            exact h.trans heq.symm
          rw [raise_cons_of_topic_ne hne, ih hrest hlater h]
          rfl

theorem mem_topics_raise_iff : topic ∈ (raise finding times entries).map Diagnostic.topic ↔
    topic ∈ entries.map Diagnostic.topic ∨ topic = finding.topic := by
  induction entries with
  | nil => simp [raise, Diagnostic.topic, Finding.topic]
  | cons first rest ih =>
      by_cases h : first.topic = finding.topic
      · rw [raise_cons_of_topic_eq h]
        simp only [List.map_cons, List.mem_cons, Diagnostic.topic_more, h]
        tauto
      · rw [raise_cons_of_topic_ne h]
        simp only [List.map_cons, List.mem_cons, ih, or_assoc]

/-- At the position of a topic stands the entry of that topic. -/
theorem topic_of_position? {i : Fin ds.entries.length} (h : ds.position? topic = some i) :
    (ds.entries.get i).topic = topic := by
  obtain ⟨place, -, hplace, rfl⟩ := Option.pmap_eq_some_iff.mp h
  obtain ⟨hlt, htopic⟩ := List.getElem?_eq_some_iff.mp ((ds.located topic place).mp hplace)
  rwa [List.getElem_map] at htopic

theorem position?_eq_none_iff :
    ds.position? topic = none ↔ topic ∉ ds.entries.map Diagnostic.topic := by
  rw [position?, Option.pmap_eq_none_iff, ds.located.get?_eq_none_iff]

theorem entries_bump {i : Fin ds.entries.length} (h : ds.position? finding.topic = some i) :
    (ds.bump i times).entries = raise finding times ds.entries :=
  (raise_eq_set ds.nodup_topics i.isLt (topic_of_position? h)).symm

/-- The index finds the entry that a search would find. -/
theorem entries_push (ds : Diagnostics) (finding : Finding) :
    (ds.push finding).entries = raise finding 1 ds.entries := by
  unfold push
  split
  · next i position => exact entries_bump position
  · next position => exact (raise_of_not_mem (position?_eq_none_iff.mp position)).symm

theorem entries_absorb (ds : Diagnostics) (d : Diagnostic) : (ds.absorb d).entries =
    raise d.finding (d.occurrences - 1) (raise d.finding 1 ds.entries) := by
  rw [← entries_push]
  simp only [absorb]
  split
  · next i position => exact entries_bump position
  -- what was pushed has an entry
  · next position =>
    refine absurd ?_ (position?_eq_none_iff.mp position)
    rw [entries_push]
    exact mem_topics_raise_iff.mpr (.inr rfl)

/-- Findings are gathered into the entries one after the other. -/
theorem entries_pushAll_eq_foldl (ds : Diagnostics) (findings : List Finding) :
    (ds.pushAll findings).entries =
      findings.foldl (fun entries finding => raise finding 1 entries) ds.entries :=
  (List.foldl_hom Diagnostics.entries fun ds finding => (ds.entries_push finding).symm).symm

/-! ## All findings -/

/-- A topic has an entry exactly if it had one before or a finding about it was added. -/
theorem mem_topics_pushAll_iff :
    topic ∈ (ds.pushAll findings).entries.map Diagnostic.topic ↔
      topic ∈ ds.entries.map Diagnostic.topic ∨ topic ∈ findings.map Finding.topic := by
  induction findings generalizing ds with
  | nil => simp [pushAll]
  | cons first rest ih =>
      show topic ∈ ((ds.push first).pushAll rest).entries.map Diagnostic.topic ↔ _
      rw [ih, entries_push, mem_topics_raise_iff, List.map_cons, List.mem_cons, or_assoc]

/-- A kind has an entry exactly if it had one before or a finding of it was added. -/
theorem exists_mem_pushAll_iff :
    (∃ d ∈ (ds.pushAll findings).entries, d.kind = kind) ↔
      (∃ d ∈ ds.entries, d.kind = kind) ∨ ∃ f ∈ findings, f.kind = kind := by
  constructor
  · rintro ⟨d, hd, hkind⟩
    rcases mem_topics_pushAll_iff.mp (List.mem_map_of_mem hd) with hold | hfinding
    · obtain ⟨old, hold, htopic⟩ := List.mem_map.mp hold
      exact .inl ⟨old, hold, (congrArg Topic.kind htopic).trans hkind⟩
    · obtain ⟨f, hf, htopic⟩ := List.mem_map.mp hfinding
      exact .inr ⟨f, hf, (congrArg Topic.kind htopic).trans hkind⟩
  · intro h
    have htopic : ∃ topic ∈ (ds.pushAll findings).entries.map Diagnostic.topic,
        topic.kind = kind := by
      rcases h with ⟨old, hold, hkind⟩ | ⟨f, hf, hkind⟩
      · exact ⟨old.topic, mem_topics_pushAll_iff.mpr (.inl (List.mem_map_of_mem hold)), hkind⟩
      · exact ⟨f.topic, mem_topics_pushAll_iff.mpr (.inr (List.mem_map_of_mem hf)), hkind⟩
    obtain ⟨topic, hmem, hkind⟩ := htopic
    obtain ⟨d, hd, rfl⟩ := List.mem_map.mp hmem
    exact ⟨d, hd, hkind⟩

private theorem count_eq_zero_iff : ds.count kind = 0 ↔ ∀ d ∈ ds.entries, d.kind ≠ kind := by
  simp [count, ofKind]

/-! ## Occurrences -/

/-- How often findings of a kind were made, whatever they were about. -/
def occurrences (ds : Diagnostics) (kind : FindingKind) : Nat :=
  (ds.ofKind kind).foldr (fun d total => d.occurrences + total) 0

private theorem occurrences_push (ds : Diagnostics) (finding : Finding) (kind : FindingKind) :
    (ds.push finding).occurrences kind =
      ds.occurrences kind + if finding.kind = kind then 1 else 0 := by
  simp only [occurrences, ofKind, entries_push]
  generalize ds.entries = entries
  induction entries with
  | nil => by_cases h : finding.kind = kind <;> simp [raise, h]
  | cons first rest ih =>
      unfold raise
      split
      · next htopic =>
        have hkind : first.kind = finding.kind := congrArg Topic.kind htopic
        by_cases h : finding.kind = kind
        · simp [Diagnostic.more, hkind, h]
          omega
        · simp [Diagnostic.more, hkind, h]
      · by_cases h : first.kind = kind
        · simp only [List.filter_cons, h, beq_self_eq_true, if_true, List.foldr_cons]
          omega
        · simpa [List.filter_cons, h] using ih

/-- The occurrences of a kind grow by the number of findings of it. -/
theorem occurrences_pushAll (ds : Diagnostics) (findings : List Finding) (kind : FindingKind) :
    (ds.pushAll findings).occurrences kind =
      ds.occurrences kind + findings.countP fun finding => finding.kind = kind := by
  induction findings generalizing ds with
  | nil => simp [pushAll]
  | cons first rest ih =>
      show ((ds.push first).pushAll rest).occurrences kind = _
      rw [ih, occurrences_push, List.countP_cons]
      by_cases h : first.kind = kind
      · simp [h]
        omega
      · simp [h]

/-! ## Other kinds -/

/-- A finding leaves the entries of other kinds as they are. -/
theorem ofKind_push_of_ne (ds : Diagnostics) (h : finding.kind ≠ kind) :
    (ds.push finding).ofKind kind = ds.ofKind kind := by
  simp only [ofKind, entries_push]
  generalize ds.entries = entries
  induction entries with
  | nil => simp [raise, h]
  | cons first rest ih =>
      unfold raise
      split
      · next htopic =>
        have hfirst : first.kind ≠ kind := by rwa [show first.kind = finding.kind from
          congrArg Topic.kind htopic]
        simp [Diagnostic.more, hfirst]
      · simp only [List.filter_cons, ih]

theorem ofKind_pushAll_of_ne (ds : Diagnostics) (h : ∀ finding ∈ findings, finding.kind ≠ kind) :
    (ds.pushAll findings).ofKind kind = ds.ofKind kind := by
  induction findings generalizing ds with
  | nil => rfl
  | cons first rest ih =>
      obtain ⟨hfirst, hrest⟩ := List.forall_mem_cons.mp h
      show ((ds.push first).pushAll rest).ofKind kind = _
      rw [ih _ hrest, ofKind_push_of_ne ds hfirst]

end Diagnostics

/-! ## Summaries and policies -/

namespace Summary

variable {ds : Diagnostics} {policy : Policy}

theorem count_of (ds : Diagnostics) (assigned : Nat) (unmatched : List UnmatchedToken)
    (kind : FindingKind) : (of ds assigned unmatched).count kind = ds.count kind := by
  cases kind <;> rfl

/-- A policy is violated exactly if a kind that it does not allow was counted. -/
theorem enforce_eq_ok_iff {summary : Summary} :
    summary.enforce policy = .ok () ↔ ∀ kind ∈ policy.fatal, summary.count kind = 0 := by
  have hviolations : (summary.violations policy).isEmpty ↔
      ∀ kind ∈ policy.fatal, summary.count kind = 0 := by
    simp [violations]
  rw [enforce, ← hviolations]
  split
  · next h => simp [h]
  · next h => simp [h]

/-- A summary of findings satisfies a policy exactly if no finding is of a fatal kind. -/
theorem enforce_of_pushAll_eq_ok_iff {findings : List Finding} {assigned : Nat}
    {unmatched : List UnmatchedToken} :
    (of (Diagnostics.pushAll {} findings) assigned unmatched).enforce policy = .ok () ↔
      ∀ finding ∈ findings, finding.kind ∉ policy.fatal := by
  simp only [enforce_eq_ok_iff, count_of, Diagnostics.count_eq_zero_iff]
  constructor
  · intro hnone finding hfinding hfatal
    obtain ⟨d, hd, hkind⟩ := Diagnostics.exists_mem_pushAll_iff.mpr (.inr ⟨finding, hfinding, rfl⟩)
    exact hnone finding.kind hfatal d hd hkind
  · rintro hallowed kind hfatal d hd rfl
    rcases Diagnostics.exists_mem_pushAll_iff.mp ⟨d, hd, rfl⟩ with ⟨old, hold, -⟩ | ⟨f, hf, hkind⟩
    · cases hold
    · exact hallowed f hf (hkind ▸ hfatal)

end Summary

end DesignTokens
