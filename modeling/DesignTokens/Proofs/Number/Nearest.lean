import DesignTokens.Proofs.Number.Rounding

/-!
# Quotients that are rounded to a number

A quotient of units is rounded to a number if it is less than half a spacing away from it
(`ofUnits_eq_of_near`).  Below a power of two the spacing is half as wide as above, so the two sides
have their own bounds: the spacing below a magnitude is that of the magnitude before.

Only the value of the quotient matters and not how it is written (`ofUnits_congr`).
-/

namespace DesignTokens.Binary64

variable {n d m q : Nat} {negative : Bool}

/-! ## Near whole numbers -/

/-- A quotient less than a half away from a whole number. -/
theorem roundEven_eq_of_near (habove : 2 * n < 2 * (q * d) + d) (hbelow : 2 * (q * d) < 2 * n + d) :
    roundEven n d = q := by
  have hd : 0 < d := by
    refine Nat.pos_of_ne_zero ?_
    rintro rfl
    omega
  rcases le_or_gt (q * d) n with hle | hlt
  · have hquotient : n / d = q := Nat.div_eq_of_lt_le hle (by rw [Nat.succ_mul]; omega)
    have hsplit := Nat.div_add_mod n d
    rw [hquotient, Nat.mul_comm] at hsplit
    have hdown : 2 * (n % d) < d := by omega
    simp only [roundEven, if_pos hdown, hquotient]
  · obtain ⟨k, rfl⟩ : ∃ k, q = k + 1 := Nat.exists_eq_succ_of_ne_zero (by rintro rfl; omega)
    have hnext : (k + 1) * d = k * d + d := Nat.succ_mul k d
    have hquotient : n / d = k := Nat.div_eq_of_lt_le (by omega) hlt
    have hsplit := Nat.div_add_mod n d
    rw [hquotient, Nat.mul_comm] at hsplit
    have hup : d < 2 * (n % d) := by omega
    simp only [roundEven, if_neg (show ¬ 2 * (n % d) < d by omega), if_pos hup, hquotient]

private theorem roundEven_mul_right {c : Nat} (hc : 0 < c) (n d : Nat) :
    roundEven (n * c) (d * c) = roundEven n d := by
  have hless : ∀ a b : Nat, a * c < b * c ↔ a < b := fun a b => Nat.mul_lt_mul_right hc
  simp only [roundEven, Nat.mul_div_mul_right n d hc, Nat.mul_mod_mul_right, ← Nat.mul_assoc,
    hless]

/-! ## Quotients of one value -/

theorem ofUnits_mul_right {c : Nat} (hc : 0 < c) (negative : Bool) (n d : Nat) :
    ofUnits negative (n * c) (d * c) = ofUnits negative n d := by
  have hround : ∀ step, roundEven (n * c) (d * c * step) = roundEven n (d * step) := by
    intro step
    rw [Nat.mul_right_comm, roundEven_mul_right hc]
  simp only [ofUnits, Nat.mul_div_mul_right n d hc, hround]

theorem ofUnits_congr {n' d' : Nat} (hd : 0 < d) (hd' : 0 < d') (h : n * d' = n' * d)
    (negative : Bool) : ofUnits negative n d = ofUnits negative n' d' := by
  rw [← ofUnits_mul_right hd' negative n d, h, Nat.mul_comm d d', ofUnits_mul_right hd]

/-- Which finite number a quotient is rounded to; the sign is only passed on. -/
theorem ofUnits_eq_finite_iff {sign : Bool} {representable : Representable m} :
    ofUnits negative n d = .finite sign m representable ↔
      negative = sign ∧ roundEven n (d * spacing (n / d)) * spacing (n / d) = m := by
  simp only [ofUnits]
  split
  · rw [finite.injEq]
  · next hlarge =>
    constructor
    · rintro ⟨⟩
    · rintro ⟨-, rfl⟩
      exact absurd representable hlarge

/-! ## Quotients out of range -/

theorem ofUnits_eq_zero (h : 2 * n < d) (negative : Bool) :
    ofUnits negative n d = zero negative := by
  have hround : roundEven n (d * 1) = 0 := roundEven_eq_of_near (by omega) (by omega)
  have hquotient : n / d = 0 := Nat.div_eq_of_lt (by omega)
  have hspacing : spacing 0 = 1 := by decide
  exact ofUnits_eq_finite_iff.mpr ⟨rfl, by rw [hquotient, hspacing, hround]⟩

theorem ofUnits_eq_infinite (hd : 0 < d) (h : overflowLimit * d ≤ n) (negative : Bool) :
    ofUnits negative n d = .infinite negative := by
  refine dif_neg fun representable => Nat.not_lt_of_le ?_ representable.2
  unfold overflowLimit at h ⊢
  -- the power is not to be computed
  generalize 2098 = limit at h ⊢
  exact le_significand_mul_spacing hd h

/-! ## Spacings -/

private theorem spacing_dvd_spacing {small large : Nat} (h : small ≤ large) :
    spacing small ∣ spacing large := by
  have hlog : small.log2 ≤ large.log2 := by
    by_cases hzero : small = 0
    · rw [hzero]
      exact Nat.zero_le _
    · exact (Nat.le_log2 (by omega)).mpr ((Nat.log2_self_le hzero).trans h)
  exact Nat.pow_dvd_pow 2 (by omega)

/-- What lies between a magnitude and the next one has the spacing of the magnitude. -/
theorem spacing_eq_of_lt (hdvd : spacing m ∣ m) (hle : m ≤ q) (hlt : q < m + spacing m) :
    spacing q = spacing m := by
  by_cases hzero : m = 0
  · subst hzero
    have hone : spacing 0 = 1 := by decide
    rw [show q = 0 by omega]
  · have hpower : spacing m ∣ 2 ^ (m.log2 + 1) := Nat.pow_dvd_pow 2 (by omega)
    have hnext : m + spacing m ≤ 2 ^ (m.log2 + 1) :=
      Nat.le_of_lt_add_of_dvd (Nat.add_lt_add_right Nat.lt_log2_self _)
        (Nat.dvd_add_self_right.mpr hdvd) hpower
    have hlog : q.log2 = m.log2 :=
      (Nat.log2_eq_iff (by omega)).mpr ⟨(Nat.log2_self_le hzero).trans hle, by omega⟩
    rw [spacing, hlog, spacing]

/-- What lies less than a spacing below a magnitude has the spacing of the magnitude before. -/
theorem spacing_eq_pred_of_lt (hdvd : spacing (m - 1) ∣ m) (hlt : q < m)
    (hle : m ≤ q + spacing (m - 1)) : spacing q = spacing (m - 1) := by
  rcases Nat.lt_or_ge precision ((m - 1).log2 + 1) with hwide | hnarrow
  · have hne : m - 1 ≠ 0 := by
      rintro hzero
      rw [hzero] at hwide
      exact absurd hwide (by decide)
    have hpower : spacing (m - 1) ∣ 2 ^ (m - 1).log2 :=
      Nat.pow_dvd_pow 2 (by unfold precision; omega)
    have hself := Nat.log2_self_le hne
    have hnext : 2 ^ (m - 1).log2 + spacing (m - 1) ≤ m :=
      Nat.le_of_lt_add_of_dvd (by omega) (Nat.dvd_add_self_right.mpr hpower) hdvd
    have hless : m - 1 < 2 ^ ((m - 1).log2 + 1) := Nat.lt_log2_self
    have hlog : q.log2 = (m - 1).log2 := (Nat.log2_eq_iff (by omega)).mpr ⟨by omega, by omega⟩
    rw [spacing, hlog, spacing]
  · have hone : spacing (m - 1) = 1 := by
      rw [spacing, Nat.sub_eq_zero_of_le hnarrow]
    rw [show q = m - 1 by omega]

theorem lt_two_pow_mul_spacing (m : Nat) : m < 2 ^ precision * spacing m := by
  calc m < 2 ^ (m.log2 + 1) := Nat.lt_log2_self
    _ ≤ 2 ^ (precision + (m.log2 + 1 - precision)) := Nat.pow_le_pow_right (by decide) (by omega)
    _ = 2 ^ precision * spacing m := Nat.pow_add ..

theorem Representable.spacing_dvd (h : Representable m) : spacing m ∣ m :=
  Nat.dvd_of_mod_eq_zero h.1

/-! ## Near numbers -/

/-- A quotient that is near to a magnitude, in the spacing of the quotient. -/
theorem ofUnits_eq_of_spacing {step : Nat} (representable : Representable m) (hdvd : step ∣ m)
    (hstep : spacing (n / d) = step) (habove : 2 * n < 2 * (m * d) + step * d)
    (hbelow : 2 * (m * d) < 2 * n + step * d) :
    ofUnits negative n d = .finite negative m representable := by
  obtain ⟨k, rfl⟩ := hdvd
  have hmiddle : k * (d * step) = step * k * d := by ring
  have hround : roundEven n (d * step) = k := by
    refine roundEven_eq_of_near ?_ ?_
    · rwa [hmiddle, Nat.mul_comm d step]
    · rwa [hmiddle, Nat.mul_comm d step]
  have hrounded : roundEven n (d * spacing (n / d)) * spacing (n / d) = step * k := by
    rw [hstep, hround, Nat.mul_comm]
  simp only [ofUnits, hrounded, dif_pos representable]

/-- **What is rounded to a number.**  A quotient of units less than half a spacing away from a
magnitude, above or below, is rounded to it. -/
theorem ofUnits_eq_of_near (representable : Representable m)
    (habove : 2 * n < 2 * (m * d) + spacing m * d)
    (hbelow : 2 * (m * d) < 2 * n + spacing (m - 1) * d) :
    ofUnits negative n d = .finite negative m representable := by
  have hd : 0 < d := by
    refine Nat.pos_of_ne_zero ?_
    rintro rfl
    omega
  rcases le_or_gt (m * d) n with hle | hlt
  · -- the quotient lies above, where the spacing is that of the number itself
    have hquotient : m ≤ n / d := (Nat.le_div_iff_mul_le hd).mpr hle
    have hless : n / d < m + spacing m := by
      rw [Nat.div_lt_iff_lt_mul hd, Nat.add_mul]
      omega
    exact ofUnits_eq_of_spacing representable representable.spacing_dvd
      (spacing_eq_of_lt representable.spacing_dvd hquotient hless) habove (by omega)
  · -- it lies below, where the spacing may be half of that
    have hless : n / d < m := (Nat.div_lt_iff_lt_mul hd).mpr hlt
    have hquotient : m ≤ n / d + spacing (m - 1) := by
      refine Nat.le_of_lt_succ (Nat.lt_of_mul_lt_mul_right (a := d) ?_)
      have hsplit := Nat.lt_div_mul_add (a := n) hd
      rw [Nat.succ_mul, Nat.add_mul]
      omega
    have hdvd : spacing (m - 1) ∣ m :=
      (spacing_dvd_spacing (Nat.sub_le m 1)).trans representable.spacing_dvd
    exact ofUnits_eq_of_spacing representable hdvd (spacing_eq_pred_of_lt hdvd hless hquotient)
      (by omega) hbelow

end DesignTokens.Binary64
