import DesignTokens.Ratio.Index
import Mathlib.Data.List.Induction
import Mathlib.Data.List.Pairwise

/-!
# Agreement on a ratio

Several composites agree on a ratio if theirs are numerically equal.  This is no equality, because a
NaN is not even equal to itself, but it is symmetric and transitive, so it does not matter which
ratios are compared: some agree if and only if all of them are equal to each other
(`agreed?_isSome_iff`).  Hence the order does not matter, and none agree if a part of them does not.
-/

namespace DesignTokens

/-! ## Equal numbers -/

namespace Binary64

variable {x y z : Binary64}

theorem numericallyEqual_comm (x y : Binary64) :
    x.numericallyEqual y = y.numericallyEqual x := by
  cases x <;> cases y <;> simp [numericallyEqual, Bool.beq_comm]

private theorem numericallyEqual_trans (hxy : x.numericallyEqual y) (hyz : y.numericallyEqual z) :
    x.numericallyEqual z := by
  cases x <;> cases y <;> cases z <;> simp_all [numericallyEqual]

/-- The same number: the very same, or one of the same value. -/
def Same (x y : Binary64) : Prop := x = y ∨ x.numericallyEqual y

end Binary64

namespace RatioIndex

variable {ratios others : List Binary64} {ratio : Binary64}

/-! ## Different ratios -/

/-- The different ratios among some, in order of first occurrence. -/
def different (ratios : List Binary64) : List Binary64 :=
  ratios.foldl (fun found ratio => addDifferent ratio found) []

/-- The ratio of a list that has no other. -/
def sole? : List Binary64 → Option Binary64
  | [ratio] => some ratio
  | _ => none

theorem different_concat (ratios : List Binary64) (ratio : Binary64) :
    different (ratios ++ [ratio]) = addDifferent ratio (different ratios) := by
  rw [different, List.foldl_append]
  rfl

theorem length_le_addDifferent (ratio : Binary64) (found : List Binary64) :
    found.length ≤ (addDifferent ratio found).length := by
  unfold addDifferent
  split
  · exact Nat.le_refl _
  · simp

theorem mem_of_mem_different (h : ratio ∈ different ratios) : ratio ∈ ratios := by
  induction ratios using List.reverseRecOn with
  | nil => exact h
  | append_singleton ratios last ih =>
      rw [different_concat, addDifferent] at h
      split at h
      · exact List.mem_append_left _ (ih h)
      · exact List.mem_append.mpr ((List.mem_append.mp h).imp_left ih)

theorem different_ne_nil (h : ratios ≠ []) : different ratios ≠ [] := by
  rcases List.eq_nil_or_concat ratios with rfl | ⟨before, ratio, rfl⟩
  · exact absurd rfl h
  · rw [List.concat_eq_append, different_concat, addDifferent]
    split
    · next hany =>
      rintro hempty
      rw [hempty] at hany
      cases hany
    · simp

theorem sole?_eq_none_of_two_le {found : List Binary64} (h : 2 ≤ found.length) :
    sole? found = none := by
  rcases found with _ | ⟨first, _ | ⟨second, rest⟩⟩
  · rfl
  · simp at h
  · rfl

/-! ## Agreement -/

/-- The ratio that some have in common. -/
def agreed? (ratios : List Binary64) : Option Binary64 := sole? (different ratios)

/-- An agreement lasts as long as the next ratio is equal to it. -/
theorem agreed?_concat (h : ratios ≠ []) (ratio : Binary64) :
    agreed? (ratios ++ [ratio]) =
      (agreed? ratios).filter fun known => known.numericallyEqual ratio := by
  rw [agreed?, agreed?, different_concat]
  rcases hfound : different ratios with _ | ⟨known, _ | ⟨second, rest⟩⟩
  case nil => exact absurd hfound (different_ne_nil h)
  case cons.nil =>
    by_cases hequal : known.numericallyEqual ratio
    · simp [addDifferent, sole?, hequal, Option.filter]
    · simp [addDifferent, sole?, hequal, Option.filter]
  -- two ratios that differ stay
  case cons.cons =>
    have htwo : 2 ≤ (known :: second :: rest).length := by simp
    have hmore := Nat.le_trans htwo (length_le_addDifferent ratio _)
    rw [sole?_eq_none_of_two_le htwo, sole?_eq_none_of_two_le hmore, Option.filter_none]

/-- Some ratios are at odds if there are two different ones. -/
theorem two_le_length_different_iff :
    2 ≤ (different ratios).length ↔ ratios ≠ [] ∧ agreed? ratios = none := by
  rw [agreed?]
  constructor
  · intro hmany
    refine ⟨?_, sole?_eq_none_of_two_le hmany⟩
    rintro rfl
    cases hmany
  · rintro ⟨hratios, hnone⟩
    rcases hfound : different ratios with _ | ⟨known, _ | ⟨second, rest⟩⟩
    · exact absurd hfound (different_ne_nil hratios)
    · rw [hfound] at hnone
      cases hnone
    · simp

/-- The first ratio is what some have in common if all later ones are equal to it. -/
theorem agreed?_cons (first : Binary64) (rest : List Binary64) :
    agreed? (first :: rest) = if rest.all first.numericallyEqual then some first else none := by
  induction rest using List.reverseRecOn with
  | nil => rfl
  | append_singleton rest ratio ih =>
      rw [← List.cons_append, agreed?_concat (List.cons_ne_nil _ _), ih, List.all_append]
      by_cases hrest : rest.all first.numericallyEqual
      · simp [hrest, Option.filter]
      · simp [hrest]

theorem head?_of_agreed? (h : agreed? ratios = some ratio) : ratios.head? = some ratio := by
  cases ratios with
  | nil => cases h
  | cons first rest =>
      rw [agreed?_cons] at h
      split at h
      · exact h
      · cases h

/-- Some ratios have one in common if all are equal to each other. -/
theorem agreed?_isSome_iff : (agreed? ratios).isSome ↔
    ratios ≠ [] ∧ ratios.Pairwise fun x y => x.numericallyEqual y := by
  cases ratios with
  | nil => simp [agreed?, different, sole?]
  | cons first rest =>
      have hall : (agreed? (first :: rest)).isSome ↔
          ∀ ratio ∈ rest, first.numericallyEqual ratio := by
        rw [agreed?_cons]
        split
        · next h => simpa using h
        · next h => simpa using h
      rw [hall, List.pairwise_cons, and_iff_right (List.cons_ne_nil _ _)]
      constructor
      · intro hfirst
        refine ⟨hfirst, List.pairwise_of_forall_mem_list ?_⟩
        intro x hx y hy
        have hback := hfirst x hx
        rw [Binary64.numericallyEqual_comm] at hback
        exact Binary64.numericallyEqual_trans hback (hfirst y hy)
      · exact And.left

/-- Where a part is at odds, so is the whole. -/
theorem agreed?_eq_none_of_sublist (hpart : ratios.Sublist others) (hratios : ratios ≠ [])
    (hnone : agreed? ratios = none) : agreed? others = none := by
  rw [← Option.not_isSome_iff_eq_none] at hnone ⊢
  intro hsome
  obtain ⟨-, hequal⟩ := agreed?_isSome_iff.mp hsome
  exact hnone (agreed?_isSome_iff.mpr ⟨hratios, hequal.sublist hpart⟩)

theorem eq_nil_iff_of_perm (hperm : ratios.Perm others) : ratios = [] ↔ others = [] := by
  rw [← List.length_eq_zero_iff, hperm.length_eq, List.length_eq_zero_iff]

theorem agreed?_isSome_iff_of_perm (hperm : ratios.Perm others) :
    (agreed? ratios).isSome ↔ (agreed? others).isSome := by
  have hsymm : ∀ {x y : Binary64}, x.numericallyEqual y → y.numericallyEqual x := by
    intro x y h
    rw [Binary64.numericallyEqual_comm]
    exact h
  rw [agreed?_isSome_iff, agreed?_isSome_iff, hperm.pairwise_iff hsymm, ne_eq,
    eq_nil_iff_of_perm hperm]

/-- In another order some ratios are again at odds, or again not. -/
theorem at_odds_iff_of_perm (hperm : ratios.Perm others) :
    ratios ≠ [] ∧ agreed? ratios = none ↔ others ≠ [] ∧ agreed? others = none := by
  rw [← Option.not_isSome_iff_eq_none, ← Option.not_isSome_iff_eq_none,
    agreed?_isSome_iff_of_perm hperm, ne_eq, eq_nil_iff_of_perm hperm]

/-- In another order some ratios have the same number in common, or again none. -/
theorem same_agreed?_of_perm (hperm : ratios.Perm others) :
    Option.Rel Binary64.Same (agreed? ratios) (agreed? others) := by
  have hsome := agreed?_isSome_iff_of_perm hperm
  cases hleft : agreed? ratios with
  | none =>
      rw [hleft] at hsome
      rw [Option.not_isSome_iff_eq_none.mp (mt hsome.mpr Bool.false_ne_true)]
      exact .none
  | some ratio =>
      rw [hleft] at hsome
      obtain ⟨other, hright⟩ := Option.isSome_iff_exists.mp (hsome.mp rfl)
      rw [hright]
      refine .some ?_
      -- both are among the ratios, where the one is the first and all others are equal to it
      have hmem : ratio ∈ others := hperm.subset (List.mem_of_head? (head?_of_agreed? hleft))
      obtain ⟨-, hequal⟩ := agreed?_isSome_iff.mp (Option.isSome_of_eq_some hright)
      obtain ⟨rest, rfl⟩ := List.head?_eq_some_iff.mp (head?_of_agreed? hright)
      rcases List.mem_cons.mp hmem with rfl | hrest
      · exact .inl rfl
      · right
        rw [Binary64.numericallyEqual_comm]
        exact (List.pairwise_cons.mp hequal).1 ratio hrest

end RatioIndex

end DesignTokens
