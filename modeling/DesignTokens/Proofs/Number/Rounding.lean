import DesignTokens.Number.Binary64
import Mathlib.Algebra.Order.Ring.Nat
import Mathlib.Tactic.Ring

/-!
# Rounding stays between powers of two

A power of two is representable, so rounding an exact quotient does not carry it across one: if a
quotient of units is at most `2 ^ e`, so is the number nearest to it, and likewise from below
(`exists_ofUnits_eq`).  In particular nothing overflows that has a power of two above it below the
overflow limit.
-/

namespace DesignTokens.Binary64

variable {n d k e : Nat}

/-! ## Nearest whole numbers -/

/-- Rounding goes down, or up if something is left over. -/
theorem roundEven_eq_or (n d : Nat) :
    roundEven n d = n / d ∨ roundEven n d = n / d + 1 ∧ n % d ≠ 0 := by
  simp only [roundEven]
  split_ifs with hdown hup
  · exact .inl rfl
  · exact .inr ⟨rfl, by omega⟩
  · -- a half is left over
    have hparity : n / d % 2 = 0 ∨ n / d % 2 = 1 := Nat.mod_two_eq_zero_or_one _
    by_cases hzero : n % d = 0
    · have hd : d = 0 := by omega
      simp [hd]
    · rcases hparity with heven | hodd
      · exact .inl (by rw [heven, Nat.add_zero])
      · exact .inr ⟨by rw [hodd], hzero⟩

theorem roundEven_le {bound : Nat} (h : n ≤ bound * d) : roundEven n d ≤ bound := by
  have hquotient : n / d ≤ bound := Nat.div_le_of_le_mul (by rwa [Nat.mul_comm])
  rcases roundEven_eq_or n d with heq | ⟨heq, hrest⟩
  · rwa [heq]
  · -- a quotient that is the bound leaves nothing over
    have hne : n / d ≠ bound := by
      intro hbound
      have hsplit := Nat.div_add_mod n d
      rw [hbound, Nat.mul_comm] at hsplit
      omega
    omega

private theorem le_roundEven {bound : Nat} (hd : 0 < d) (h : bound * d ≤ n) :
    bound ≤ roundEven n d := by
  have hquotient : bound ≤ n / d := (Nat.le_div_iff_mul_le hd).mpr h
  rcases roundEven_eq_or n d with heq | ⟨heq, -⟩ <;> omega

/-! ## Representable magnitudes -/

theorem spacing_dvd {magnitude : Nat} (hlog : magnitude.log2 + 1 ≤ precision + k)
    (hdvd : 2 ^ k ∣ magnitude) : spacing magnitude ∣ magnitude := by
  refine (Nat.pow_dvd_pow 2 ?_).trans hdvd
  omega

/-- Multiples of a power of two by a significand are representable. -/
theorem representable_mul_two_pow {r : Nat} (hr : r ≤ 2 ^ precision)
    (hlt : r * 2 ^ k < overflowLimit) : Representable (r * 2 ^ k) := by
  refine ⟨Nat.mod_eq_zero_of_dvd ?_, hlt⟩
  rcases hr.lt_or_eq with hsmall | rfl
  · by_cases hzero : r = 0
    · simp [hzero]
    · have hne : r * 2 ^ k ≠ 0 := Nat.mul_ne_zero hzero (Nat.two_pow_pos k).ne'
      have hpow : r * 2 ^ k < 2 ^ (precision + k) := by
        rw [Nat.pow_add]
        exact Nat.mul_lt_mul_of_pos_right hsmall (Nat.two_pow_pos k)
      exact spacing_dvd ((Nat.log2_lt hne).mpr hpow) (Nat.dvd_mul_left _ _)
  · -- a full significand makes the next power of two, with twice the spacing
    rw [← Nat.pow_add]
    refine spacing_dvd (k := precision + k) ?_ (Nat.dvd_refl _)
    rw [Nat.log2_two_pow]
    unfold precision
    omega

/-! ## Rounding a quotient of units -/

/-- The significand of a rounded quotient. -/
def significand (n d : Nat) : Nat := roundEven n (d * spacing (n / d))

private theorem significand_le (hd : 0 < d) : significand n d ≤ 2 ^ precision := by
  refine roundEven_le ?_
  have hlt : n < 2 ^ ((n / d).log2 + 1) * d := by
    have hquotient : n / d < 2 ^ ((n / d).log2 + 1) := Nat.lt_log2_self
    exact (Nat.div_lt_iff_lt_mul hd).mp hquotient
  have hpow : 2 ^ ((n / d).log2 + 1) ≤ 2 ^ precision * spacing (n / d) := by
    rw [spacing, Nat.pow_eq, ← Nat.pow_add]
    exact Nat.pow_le_pow_right (by decide) (by omega)
  calc n ≤ 2 ^ ((n / d).log2 + 1) * d := hlt.le
    _ ≤ 2 ^ precision * spacing (n / d) * d := Nat.mul_le_mul_right d hpow
    _ = 2 ^ precision * (d * spacing (n / d)) := by ring

/-- A power of two that is not below the quotient is a multiple of its spacing. -/
theorem exists_mul_spacing_eq_of_le (h : n ≤ 2 ^ e * d) :
    ∃ q, 2 ^ e = q * spacing (n / d) := by
  have hquotient : n / d ≤ 2 ^ e := Nat.div_le_of_le_mul (by rwa [Nat.mul_comm])
  have hlog : (n / d).log2 ≤ e := by
    by_cases hzero : n / d = 0
    · simp [hzero]
    · exact (Nat.pow_le_pow_iff_right (by decide)).mp ((Nat.log2_self_le hzero).trans hquotient)
  refine ⟨2 ^ (e - ((n / d).log2 + 1 - precision)), ?_⟩
  rw [spacing, Nat.pow_eq, ← Nat.pow_add]
  congr 1
  unfold precision
  omega

private theorem significand_mul_spacing_le (h : n ≤ 2 ^ e * d) :
    significand n d * spacing (n / d) ≤ 2 ^ e := by
  obtain ⟨q, hq⟩ := exists_mul_spacing_eq_of_le h
  rw [hq]
  refine Nat.mul_le_mul_right _ (roundEven_le ?_)
  calc n ≤ 2 ^ e * d := h
    _ = q * (d * spacing (n / d)) := by rw [hq]; ring

theorem le_significand_mul_spacing (hd : 0 < d) (h : 2 ^ e * d ≤ n) :
    2 ^ e ≤ significand n d * spacing (n / d) := by
  -- the largest power of two below the quotient is a multiple of the spacing
  have hquotient : 2 ^ e ≤ n / d := (Nat.le_div_iff_mul_le hd).mpr h
  have hne : n / d ≠ 0 := (Nat.lt_of_lt_of_le (Nat.two_pow_pos e) hquotient).ne'
  have hlog : e ≤ (n / d).log2 := (Nat.le_log2 hne).mpr hquotient
  refine (Nat.pow_le_pow_right (by decide) hlog).trans ?_
  have hsplit : 2 ^ (n / d).log2 =
      2 ^ ((n / d).log2 - ((n / d).log2 + 1 - precision)) * spacing (n / d) := by
    rw [spacing, Nat.pow_eq, ← Nat.pow_add]
    congr 1
    unfold precision
    omega
  rw [hsplit]
  refine Nat.mul_le_mul_right _ (le_roundEven (Nat.mul_pos hd (spacing_pos _)) ?_)
  calc 2 ^ ((n / d).log2 - ((n / d).log2 + 1 - precision)) * (d * spacing (n / d))
      = 2 ^ (n / d).log2 * d := by rw [hsplit]; ring
    _ ≤ n / d * d := Nat.mul_le_mul_right d (Nat.log2_self_le hne)
    _ ≤ n := Nat.div_mul_le_self n d

private theorem two_pow_lt_overflowLimit (he : e < 2098) : 2 ^ e < overflowLimit := by
  unfold overflowLimit
  -- the power is not to be computed
  generalize 2098 = limit at he ⊢
  exact Nat.pow_lt_pow_right Nat.one_lt_two he

/-- The number nearest to a quotient of units that is at most a power of two. -/
theorem exists_ofUnits_eq (negative : Bool) (hd : 0 < d) (he : e < 2098) (h : n ≤ 2 ^ e * d) :
    ∃ m representable, ofUnits negative n d = .finite negative m representable ∧ m ≤ 2 ^ e ∧
      ∀ low, 2 ^ low * d ≤ n → 2 ^ low ≤ m := by
  have hle := significand_mul_spacing_le h
  have hlt : significand n d * spacing (n / d) < overflowLimit :=
    hle.trans_lt (two_pow_lt_overflowLimit he)
  have hrepresentable : Representable (significand n d * spacing (n / d)) :=
    representable_mul_two_pow (significand_le hd) hlt
  refine ⟨_, hrepresentable, ?_, hle, fun low => le_significand_mul_spacing hd⟩
  exact dif_pos hrepresentable

end DesignTokens.Binary64
