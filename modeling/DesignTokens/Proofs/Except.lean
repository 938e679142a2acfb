import Mathlib.Data.List.Forall2
import Mathlib.Data.List.Induction
import Mathlib.Data.List.Nodup

/-!
# Checked computations that succeed

What the success of a chain of checked steps says about each step.  A traversal succeeds exactly if
each item does, and a fold that gathers items under keys exactly if all of them fit and no two of
them have one key.
-/

namespace DesignTokens.Except

variable {ε ε' α β : Type}

theorem bind_eq_ok_iff {x : Except ε α} {f : α → Except ε β} {b : β} :
    (x >>= f) = .ok b ↔ ∃ a, x = .ok a ∧ f a = .ok b := by
  cases x with
  | error e => simp [bind, Except.bind]
  | ok a => simp [bind, Except.bind]

theorem ok_bind (a : α) (f : α → Except ε β) : (Except.ok a >>= f) = f a := rfl

theorem pure_eq_ok_iff {a b : α} : (pure a : Except ε α) = .ok b ↔ a = b := by
  simp [pure, Except.pure]

/-- A computation has one result. -/
theorem ok_unique {x : Except ε α} {a b : α} (ha : x = .ok a) (hb : x = .ok b) : a = b := by
  rw [ha] at hb
  injection hb

theorem mapError_eq_ok_iff {x : Except ε α} {f : ε → ε'} {a : α} :
    x.mapError f = .ok a ↔ x = .ok a := by
  cases x with
  | error e => simp [Except.mapError]
  | ok b => simp [Except.mapError]

/-- A check that succeeds says nothing but that. -/
theorem check_bind_eq_ok_iff {check : Except ε Unit} {rest : Except ε α} {a : α} :
    (check >>= fun _ => rest) = .ok a ↔ check = .ok () ∧ rest = .ok a := by
  rw [bind_eq_ok_iff]
  constructor
  · rintro ⟨⟨⟩, hcheck, hrest⟩
    exact ⟨hcheck, hrest⟩
  · rintro ⟨hcheck, hrest⟩
    exact ⟨(), hcheck, hrest⟩

theorem forM_eq_ok_iff {check : α → Except ε Unit} {items : List α} :
    items.forM check = .ok () ↔ ∀ item ∈ items, check item = .ok () := by
  induction items with
  | nil => simp [pure, Except.pure]
  | cons item rest ih =>
      change (check item >>= fun _ => rest.forM check) = .ok () ↔ _
      rw [check_bind_eq_ok_iff, ih, List.forall_mem_cons]

theorem mapM_eq_ok_iff {f : α → Except ε β} {items : List α} {results : List β} :
    items.mapM f = .ok results ↔ List.Forall₂ (fun item result => f item = .ok result)
      items results := by
  induction items generalizing results with
  | nil =>
      rw [List.mapM_nil, pure_eq_ok_iff, List.forall₂_nil_left_iff, eq_comm]
  | cons item rest ih =>
      rw [List.mapM_cons, bind_eq_ok_iff, List.forall₂_cons_left_iff]
      constructor
      · rintro ⟨first, hfirst, hrest⟩
        obtain ⟨others, hothers, hcons⟩ := bind_eq_ok_iff.mp hrest
        exact ⟨first, others, hfirst, ih.mp hothers, (pure_eq_ok_iff.mp hcons).symm⟩
      · rintro ⟨first, others, hfirst, hothers, rfl⟩
        exact ⟨first, hfirst, bind_eq_ok_iff.mpr ⟨others, ih.mpr hothers, rfl⟩⟩

/-- A traversal of items that each have a result has one. -/
theorem exists_mapM_eq_ok {f : α → Except ε β} {items : List α}
    (h : ∀ item ∈ items, ∃ result, f item = .ok result) :
    ∃ results, items.mapM f = .ok results := by
  induction items with
  | nil => exact ⟨[], rfl⟩
  | cons item rest ih =>
      obtain ⟨⟨first, hfirst⟩, hrest⟩ := List.forall_mem_cons.mp h
      obtain ⟨others, hothers⟩ := ih hrest
      refine ⟨first :: others, ?_⟩
      rw [List.mapM_cons, hfirst, hothers]
      rfl

theorem mapM_eq_ok_map {f : α → Except ε β} {result : α → β} {items : List α}
    (h : ∀ item ∈ items, f item = .ok (result item)) :
    items.mapM f = .ok (items.map result) :=
  mapM_eq_ok_iff.mpr (List.forall₂_map_right_iff.mpr (List.forall₂_same.mpr h))

/-- A traversal of what pairs of items make, where each pair has a result. -/
theorem mapM_pairs_eq_ok {γ δ : Type} {f : δ → Except ε γ} {make : α → β → δ} {result : α → β → γ}
    {items : List α} {others : List β}
    (h : ∀ item ∈ items, ∀ other ∈ others, f (make item other) = .ok (result item other)) :
    (items.flatMap fun item => others.map (make item)).mapM f =
      .ok (items.flatMap fun item => others.map (result item)) := by
  induction items with
  | nil => rfl
  | cons item rest ih =>
      obtain ⟨hitem, hrest⟩ := List.forall_mem_cons.mp h
      have hfirst : (others.map (make item)).mapM f = .ok (others.map (result item)) := by
        rw [List.mapM_map]
        exact mapM_eq_ok_map hitem
      rw [List.flatMap_cons, List.mapM_append, hfirst, ih hrest]
      rfl

theorem eq_ok_of_isOk {x : Except ε α} {fallback : α} (h : x.isOk) :
    x = .ok (x.toOption.getD fallback) := by
  cases x with
  | error e => cases h
  | ok a => rfl

end DesignTokens.Except
