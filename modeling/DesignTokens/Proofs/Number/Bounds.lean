import DesignTokens.Proofs.Number.Rounding

/-!
# Bounds of numbers

`AtMost` and `AtLeast` bound the magnitude of a number by powers of two, from above and, zero apart,
from below; `Within` does both.  Rounding respects such bounds, so each operation has one line here:
products add the exponents, and so do quotients, where a divisor has to be bounded from below.
Bounds far from the overflow limit thus go through the roundings of the domain
(`AtMost.toHundredths`, `AtMost.toThousandths`), although these multiply before they divide.
-/

namespace DesignTokens.Binary64

/-- How many units a finite number is away from zero. -/
def units : Binary64 → Nat
  | .finite _ m _ => m
  | .nan | .infinite _ => 0

/-- A finite number is at most `2 ^ e`, up to its sign. -/
def AtMost (e : Nat) (x : Binary64) : Prop := x.isFinite ∧ x.units ≤ 2 ^ e * one

/-- A finite number is zero or at least `2 ^ -e`, up to its sign. -/
def AtLeast (e : Nat) (x : Binary64) : Prop := x.units = 0 ∨ one ≤ 2 ^ e * x.units

/-- A finite number is zero or between `2 ^ -e` and `2 ^ e`, up to its sign. -/
structure Within (e : Nat) (x : Binary64) : Prop where
  atMost : x.AtMost e
  atLeast : x.AtLeast e

instance (e : Nat) (x : Binary64) : Decidable (x.AtMost e) := inferInstanceAs (Decidable (_ ∧ _))

instance (e : Nat) (x : Binary64) : Decidable (x.AtLeast e) := inferInstanceAs (Decidable (_ ∨ _))

instance (e : Nat) (x : Binary64) : Decidable (x.Within e) :=
  decidable_of_iff (x.AtMost e ∧ x.AtLeast e) ⟨fun h => ⟨h.1, h.2⟩, fun h => ⟨h.1, h.2⟩⟩

variable {x y : Binary64} {a b e n d : Nat}

theorem one_pos : 0 < one := by
  unfold one
  -- the power is not to be computed
  generalize 1074 = k
  exact Nat.two_pow_pos k

theorem two_pow_add (e : Nat) : 2 ^ (e + 1074) = 2 ^ e * one := by
  unfold one
  -- the power is not to be computed
  generalize 1074 = k
  exact Nat.pow_add 2 e k

private theorem one_eq_mul {k l : Nat} (h : 1074 = k + l) : one = 2 ^ k * 2 ^ l := by
  unfold one
  rw [h]
  exact Nat.pow_add 2 k l

theorem AtMost.mono (h : x.AtMost a) (hab : a ≤ b) : x.AtMost b :=
  ⟨h.1, h.2.trans (Nat.mul_le_mul_right _ (Nat.pow_le_pow_right (by decide) hab))⟩

theorem AtLeast.mono (h : x.AtLeast a) (hab : a ≤ b) : x.AtLeast b :=
  h.imp id fun hle => hle.trans (Nat.mul_le_mul_right _ (Nat.pow_le_pow_right (by decide) hab))

theorem Within.mono (h : x.Within a) (hab : a ≤ b) : x.Within b :=
  ⟨h.atMost.mono hab, h.atLeast.mono hab⟩

theorem exists_eq_finite (h : x.isFinite) :
    ∃ s m representable, x = .finite s m representable := by
  cases x with
  | finite s m representable => exact ⟨s, m, representable, rfl⟩
  | nan => cases h
  | infinite s => cases h

/-- What lies between finite numbers is finite. -/
theorem isFinite_of_le_of_le {low high : Binary64} (hlow : low ≤ x) (hhigh : x ≤ high)
    (hfinite : low.isFinite ∧ high.isFinite) : x.isFinite := by
  obtain ⟨s, m, hm, rfl⟩ := exists_eq_finite hfinite.1
  obtain ⟨t, n, hn, rfl⟩ := exists_eq_finite hfinite.2
  change (lt _ _ || numericallyEqual _ _) = true at hlow hhigh
  cases x with
  | finite negative magnitude representable => rfl
  | nan => cases hlow
  | infinite negative =>
      -- above the upper bound or, if negative, below the lower one
      cases negative with
      | false => cases hhigh
      | true => cases hlow

/-! ## Zero -/

theorem zero_eq : (0 : Binary64) = .finite false 0 representable_zero := by decide +kernel

theorem units_ne_zero_of_pos (h : 0 < x) (hfinite : x.isFinite) : x.units ≠ 0 := by
  obtain ⟨s, m, representable, rfl⟩ := exists_eq_finite hfinite
  rintro hzero
  obtain rfl : m = 0 := hzero
  rw [zero_eq] at h
  have hlt : lt (.finite false 0 representable_zero) (.finite s 0 representable) = true := h
  cases s <;> simp [lt, signed] at hlt

theorem units_ne_zero_of_not_le (h : ¬ x ≤ 0) (hfinite : x.isFinite) : x.units ≠ 0 := by
  obtain ⟨s, m, representable, rfl⟩ := exists_eq_finite hfinite
  rintro hzero
  obtain rfl : m = 0 := hzero
  refine h ?_
  rw [zero_eq]
  show (lt _ _ || numericallyEqual _ _) = true
  cases s <;> simp [lt, numericallyEqual, signed]

/-! ## Rounded quotients -/

/-- The number nearest to a quotient of units, with its bounds. -/
theorem bounds_ofUnits (negative : Bool) (hd : 0 < d) (he : e < 1024) (h : n ≤ 2 ^ e * one * d) :
    (ofUnits negative n d).AtMost e ∧
      ∀ low, low ≤ 1074 → one * d ≤ 2 ^ low * n → (ofUnits negative n d).AtLeast low := by
  have hunits := two_pow_add e
  rw [← hunits] at h
  obtain ⟨m, representable, heq, hle, hlow⟩ := exists_ofUnits_eq negative hd (by omega) h
  rw [heq]
  refine ⟨⟨rfl, hunits ▸ hle⟩, fun low hrange hbound => .inr ?_⟩
  obtain ⟨k, hk⟩ := Nat.exists_eq_add_of_le hrange
  have hone := one_eq_mul hk
  rw [hone, Nat.mul_assoc] at hbound
  rw [hone]
  exact Nat.mul_le_mul_left _ (hlow k (Nat.le_of_mul_le_mul_left hbound (Nat.two_pow_pos low)))

/-- The number nearest to a quotient, with its bounds. -/
theorem bounds_ofRatio (negative : Bool) (hd : 0 < d) (he : e < 1024) (h : n ≤ 2 ^ e * d) :
    (ofRatio negative n d).AtMost e ∧
      ∀ low, low ≤ 1074 → d ≤ 2 ^ low * n → (ofRatio negative n d).AtLeast low := by
  have hunits : n * one ≤ 2 ^ e * one * d := by
    calc n * one ≤ 2 ^ e * d * one := Nat.mul_le_mul_right _ h
      _ = 2 ^ e * one * d := by ring
  obtain ⟨hmost, hleast⟩ := bounds_ofUnits negative hd he hunits
  refine ⟨hmost, fun low hrange hbound => hleast low hrange ?_⟩
  calc one * d ≤ one * (2 ^ low * n) := Nat.mul_le_mul_left _ hbound
    _ = 2 ^ low * (n * one) := by ring

/-- Nothing is rounded to zero. -/
theorem units_ofRatio_zero (negative : Bool) (d : Nat) : (ofRatio negative 0 d).units = 0 := by
  have hzero : ∀ d, roundEven 0 d = 0 := by
    intro d
    rcases roundEven_eq_or 0 d with h | ⟨-, hrest⟩
    · rw [h, Nat.zero_div]
    · exact absurd (Nat.zero_mod d) hrest
  simp [ofRatio, ofUnits, hzero, representable_zero, units]

/-! ## Products and quotients -/

theorem AtMost.mul (hx : x.AtMost a) (hy : y.AtMost b) (h : a + b < 1024) :
    (x * y).AtMost (a + b) := by
  obtain ⟨s, m, hm, rfl⟩ := exists_eq_finite hx.1
  obtain ⟨t, n, hn, rfl⟩ := exists_eq_finite hy.1
  refine (bounds_ofUnits (s != t) one_pos h ?_).1
  calc m * n ≤ 2 ^ a * one * (2 ^ b * one) := Nat.mul_le_mul hx.2 hy.2
    _ = 2 ^ (a + b) * one * one := by ring

/-- A quotient of finite numbers is rounded once, unless the divisor is zero. -/
theorem div_eq_ofRatio (hx : x.isFinite) (hy : y.isFinite) (hne : y.units ≠ 0) :
    ∃ negative, x / y = ofRatio negative x.units y.units := by
  obtain ⟨s, m, hm, rfl⟩ := exists_eq_finite hx
  obtain ⟨t, n, hn, rfl⟩ := exists_eq_finite hy
  exact ⟨s != t, if_neg hne⟩

theorem AtMost.div (hx : x.AtMost a) (hy : y.AtLeast b) (hfinite : y.isFinite)
    (hne : y.units ≠ 0) (h : a + b < 1024) : (x / y).AtMost (a + b) ∧
      ∀ low, low ≤ 1074 → y.units ≤ 2 ^ low * x.units → (x / y).AtLeast low := by
  obtain ⟨negative, hquotient⟩ := div_eq_ofRatio hx.1 hfinite hne
  rw [hquotient]
  refine bounds_ofRatio negative (Nat.pos_of_ne_zero hne) h ?_
  calc x.units ≤ 2 ^ a * one := hx.2
    _ ≤ 2 ^ a * (2 ^ b * y.units) := Nat.mul_le_mul_left _ (hy.resolve_left hne)
    _ = 2 ^ (a + b) * y.units := by ring

/-! ## Whole numbers -/

private theorem wholePart_le {m : Nat} (h : m ≤ 2 ^ e * one) : wholePart m ≤ 2 ^ e := by
  have hhalf : one / 2 < one := Nat.div_lt_self one_pos (by decide)
  refine Nat.le_of_lt_succ ((Nat.div_lt_iff_lt_mul one_pos).mpr ?_)
  rw [Nat.succ_mul]
  omega

theorem AtMost.round (hx : x.AtMost e) (he : e < 1024) :
    x.round.AtMost e ∧ x.round.AtLeast 0 := by
  obtain ⟨s, m, hm, rfl⟩ := exists_eq_finite hx.1
  have hwhole : wholePart m ≤ 2 ^ e * 1 := by
    rw [Nat.mul_one]
    exact wholePart_le hx.2
  obtain ⟨hmost, hleast⟩ := bounds_ofRatio s Nat.one_pos he hwhole
  refine ⟨hmost, ?_⟩
  by_cases hzero : wholePart m = 0
  · left
    show (ofRatio s (wholePart m) 1).units = 0
    rw [hzero, units_ofRatio_zero]
  · exact hleast 0 (by decide) (by omega)

/-! ## Roundings of the domain -/

theorem bounds_hundred : (100 : Binary64).AtMost 7 ∧ (100 : Binary64).AtLeast 0 ∧
    (100 : Binary64).units ≠ 0 := by decide +kernel

theorem AtMost.toThousandths (hx : x.AtMost e) (he : e + 10 < 1024) :
    x.toThousandths.AtMost (e + 10) := by
  have hthousand : (1000 : Binary64).AtMost 10 ∧ (1000 : Binary64).AtLeast 0 ∧
      (1000 : Binary64).units ≠ 0 := by decide +kernel
  have hscaled := ((hx.mul hthousand.1 he).round he).1
  exact (hscaled.div hthousand.2.1 hthousand.1.1 hthousand.2.2 he).1

/-- Rounded to hundredths, what is not zero is no less than a hundredth. -/
theorem AtMost.toHundredths (hx : x.AtMost e) (he : e + 7 < 1024) :
    x.toHundredths.Within (e + 7) := by
  have hhundred := bounds_hundred
  obtain ⟨hscaled, hwhole⟩ := (hx.mul hhundred.1 he).round he
  obtain ⟨hmost, hleast⟩ := hscaled.div hhundred.2.1 hhundred.1.1 hhundred.2.2 he
  have hzero : (0 : Binary64).isFinite ∧ (0 : Binary64).units = 0 := by decide +kernel
  rw [Binary64.toHundredths]
  split
  · refine ⟨⟨hzero.1, ?_⟩, .inl hzero.2⟩
    rw [hzero.2]
    exact Nat.zero_le _
  · refine ⟨hmost, ?_⟩
    rcases hwhole with hnone | hone
    · left
      obtain ⟨negative, hquotient⟩ := div_eq_ofRatio hscaled.1 hhundred.1.1 hhundred.2.2
      rw [hquotient, hnone, units_ofRatio_zero]
    · rw [Nat.pow_zero, Nat.one_mul] at hone
      have hhundredth := hleast 7 (by decide) (hhundred.1.2.trans (Nat.mul_le_mul_left _ hone))
      exact hhundredth.mono (by omega)

/-! ## Ratios -/

/-- The ratio of a length to a size, rounded to thousandths. -/
theorem Within.isFinite_ratio {height size : Binary64} (hheight : height.AtMost a)
    (hsize : size.Within b) (hne : size.units ≠ 0) (h : a + b + 10 < 1024) :
    (height / size).toThousandths.isFinite := by
  have hquotient := (hheight.div hsize.atLeast hsize.atMost.1 hne (by omega)).1
  exact (hquotient.toThousandths h).1

end DesignTokens.Binary64
