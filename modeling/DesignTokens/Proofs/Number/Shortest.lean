import DesignTokens.Number.Decimal
import DesignTokens.Proofs.Number.Bounds
import DesignTokens.Proofs.Number.Nearest

/-!
# The shortest decimal is read back

The number nearest to a decimal is a rounded quotient of units, in range or not (`ofDecimal_eq`), so
it depends on the value of the decimal only, and zeros at the end make no difference
(`ofDecimal_strip`).

With seventeen digits, one of the two neighbours of a number on the grid of decimals is read back as
the number: if both were half a spacing away or more, a step of the grid would be as wide as a
spacing, but it is less than `2 ^ -53` of the number, and no spacing is (`exists_shortestOf?`).  So
the search for the shortest decimal always ends, and what it finds is read back
(`ofDecimal_shortest`).
-/

namespace DesignTokens

private theorem Decimal.scale_eq (n d : Nat) (e : Int) :
    scale n d e = (n * 10 ^ e.toNat, d * 10 ^ (-e).toNat) := by
  cases e with
  | ofNat p =>
      have hnone : (-(p : Int)).toNat = 0 := Int.toNat_neg_natCast p
      show _ = (n * 10 ^ p, d * 10 ^ (-(p : Int)).toNat)
      rw [hnone, Nat.pow_zero, Nat.mul_one]
      rfl
  | negSucc p =>
      show _ = (n * 10 ^ 0, d * 10 ^ (p + 1))
      rw [Nat.pow_zero, Nat.mul_one]
      rfl

namespace Binary64

variable {m count : Nat} {d : Decimal} {tie : Tie} {representable : Representable m}

/-! ## Numbers nearest to decimals -/

private theorem one_le_two_pow {e : Nat} (he : 1074 ≤ e) : one ≤ 2 ^ e := by
  unfold one
  -- the power is not to be computed
  generalize 1074 = k at he ⊢
  exact Nat.pow_le_pow_right (by decide) he

private theorem overflowLimit_le_two_pow_mul {e : Nat} (he : 1024 ≤ e) :
    overflowLimit ≤ 2 ^ e * one := by
  have hexponent : 2098 ≤ e + 1074 := by omega
  rw [← two_pow_add]
  unfold overflowLimit
  -- the power is not to be computed
  generalize 2098 = limit at hexponent ⊢
  exact Nat.pow_le_pow_right (by decide) hexponent

private theorem ofUnits_eq_infinite_of_large {digits e : Nat} (hdigits : digits ≠ 0) (he : 310 ≤ e)
    (negative : Bool) : ofUnits negative (digits * 10 ^ e * one) 1 = .infinite negative := by
  -- 2 ^ 93 is just below 10 ^ 28
  obtain ⟨k, hlow, hhigh⟩ : ∃ k, 1024 ≤ 93 * k + 1 ∧ 28 * k + 1 ≤ e := ⟨11, by decide, by omega⟩
  have hpower : 2 ^ (93 * k + 1) ≤ 10 ^ e := by
    calc 2 ^ (93 * k + 1) = (2 ^ 93) ^ k * 2 := by rw [Nat.pow_succ, Nat.pow_mul]
      _ ≤ (10 ^ 28) ^ k * 10 := Nat.mul_le_mul (Nat.pow_le_pow_left (by decide) k) (by decide)
      _ = 10 ^ (28 * k + 1) := by rw [← Nat.pow_mul, ← Nat.pow_succ]
      _ ≤ 10 ^ e := Nat.pow_le_pow_right (by decide) hhigh
  refine ofUnits_eq_infinite Nat.one_pos ?_ negative
  calc overflowLimit * 1 = overflowLimit := Nat.mul_one _
    _ ≤ 2 ^ (93 * k + 1) * one := overflowLimit_le_two_pow_mul hlow
    _ ≤ 10 ^ e * one := Nat.mul_le_mul_right _ hpower
    _ ≤ digits * 10 ^ e * one :=
        Nat.mul_le_mul_right _ (Nat.le_mul_of_pos_left _ (Nat.pos_of_ne_zero hdigits))

private theorem ofUnits_eq_zero_of_small {digits e : Nat} (h : digits.log2 + 1 + 1076 ≤ 3 * e)
    (negative : Bool) : ofUnits negative (digits * one) (10 ^ e) = zero negative := by
  have hpower : 2 ^ (digits.log2 + 1) * (4 * one) ≤ 10 ^ e := by
    calc 2 ^ (digits.log2 + 1) * (4 * one) = 2 ^ (digits.log2 + 1 + 2) * one := by ring
      _ = 2 ^ (digits.log2 + 1 + 2 + 1074) := (two_pow_add _).symm
      _ ≤ 2 ^ (3 * e) := Nat.pow_le_pow_right (by decide) h
      _ = 8 ^ e := Nat.pow_mul 2 3 e
      _ ≤ 10 ^ e := Nat.pow_le_pow_left (by decide) e
  refine ofUnits_eq_zero (Nat.lt_of_lt_of_le ?_ hpower) negative
  calc 2 * (digits * one) ≤ digits * (4 * one) := by
        rw [Nat.mul_left_comm]
        exact Nat.mul_le_mul_left _ (Nat.mul_le_mul_right _ (by decide))
    _ < 2 ^ (digits.log2 + 1) * (4 * one) :=
        Nat.mul_lt_mul_of_pos_right Nat.lt_log2_self (Nat.mul_pos (by decide) one_pos)

/-- A decimal is rounded as a quotient; the bounds of its exponent only cut the way short. -/
theorem ofDecimal_eq (negative : Bool) (d : Decimal) : ofDecimal negative d =
    ofUnits negative (d.digits * 10 ^ d.exponent.toNat * one) (10 ^ (-d.exponent).toNat) := by
  obtain ⟨digits, exponent⟩ := d
  rw [ofDecimal]
  split
  · next hzero =>
    obtain rfl : digits = 0 := hzero
    rw [Nat.zero_mul, Nat.zero_mul, ofUnits_eq_zero (Nat.pow_pos (by decide))]
  · next hdigits =>
    cases exponent with
    | ofNat e =>
        show _ = ofUnits negative (digits * 10 ^ e * one) (10 ^ (-(e : Int)).toNat)
        rw [Int.toNat_neg_natCast, Nat.pow_zero]
        -- the exact quotient overflows there as well
        by_cases hlarge : 310 ≤ e
        · rw [ofUnits_eq_infinite_of_large hdigits hlarge]
          exact if_pos hlarge
        · exact if_neg hlarge
    | negSucc e =>
        show _ = ofUnits negative (digits * 10 ^ 0 * one) (10 ^ (e + 1))
        rw [Nat.pow_zero, Nat.mul_one]
        -- as 8 is below 10, the quotient is too small to be rounded up
        by_cases hsmall : digits.log2 + 1 + 1076 ≤ 3 * (e + 1)
        · rw [ofUnits_eq_zero_of_small hsmall]
          exact if_pos hsmall
        · exact if_neg hsmall

/-- Zeros at the end of the digits are worth as much in the exponent. -/
theorem ofDecimal_shift (negative : Bool) (digits zeros : Nat) (exponent : Int) :
    ofDecimal negative ⟨digits * 10 ^ zeros, exponent⟩ =
      ofDecimal negative ⟨digits, exponent + zeros⟩ := by
  have hten : ∀ k, 0 < 10 ^ k := fun k => Nat.pow_pos (by decide)
  have hpower : 10 ^ zeros * 10 ^ exponent.toNat * 10 ^ (-(exponent + zeros)).toNat =
      10 ^ (exponent + zeros).toNat * 10 ^ (-exponent).toNat := by
    rw [← Nat.pow_add, ← Nat.pow_add, ← Nat.pow_add]
    congr 1
    omega
  rw [ofDecimal_eq, ofDecimal_eq]
  refine ofUnits_congr (hten _) (hten _) ?_ negative
  calc digits * 10 ^ zeros * 10 ^ exponent.toNat * one * 10 ^ (-(exponent + zeros)).toNat
      = digits * one * (10 ^ zeros * 10 ^ exponent.toNat * 10 ^ (-(exponent + zeros)).toNat) := by
        ring
    _ = digits * 10 ^ (exponent + zeros).toNat * one * 10 ^ (-exponent).toNat := by
        rw [hpower]
        ring

theorem ofDecimal_strip (negative : Bool) (fuel : Nat) (d : Decimal) :
    ofDecimal negative (d.strip fuel) = ofDecimal negative d := by
  induction fuel generalizing d with
  | zero => rfl
  | succ fuel ih =>
      rw [Decimal.strip]
      split
      · next hzero =>
        have hdigits : d.digits = d.digits / 10 * 10 ^ 1 := by omega
        rw [ih, ← Nat.cast_one (R := Int), ← ofDecimal_shift, ← hdigits]
      · rfl

/-- A decimal is read back with a sign if it is read back without one. -/
theorem ofDecimal_eq_finite (h : ofDecimal false d = .finite false m representable)
    (negative : Bool) : ofDecimal negative d = .finite negative m representable := by
  rw [ofDecimal_eq, ofUnits_eq_finite_iff] at h ⊢
  exact ⟨rfl, h.2⟩

/-! ## The search -/

theorem readsBack_iff (representable : Representable m) :
    readsBack m d ↔ ofDecimal false d = .finite false m representable := by
  rw [readsBack]
  constructor
  · intro h
    split at h
    · next sign n hn heq =>
      obtain rfl : n = m := beq_iff_eq.mp h
      rw [ofDecimal_eq, ofUnits_eq_finite_iff] at heq ⊢
      exact ⟨rfl, heq.2⟩
    · cases h
  · intro h
    rw [h]
    exact beq_self_eq_true m

/-- What is found on a grid is read back. -/
theorem OnGrid.readsBack_of_readBack? {x : OnGrid} (h : x.readBack? tie m = some d) :
    readsBack m d := by
  rw [readBack?] at h
  split at h
  · next hbelow habove =>
    obtain rfl := Option.some.inj h
    split
    · exact hbelow
    · exact habove
  · next hbelow habove => exact Option.some.inj h ▸ hbelow
  · next hbelow habove => exact Option.some.inj h ▸ habove
  · cases h

/-- Something is found if one of the neighbours is read back. -/
theorem OnGrid.isSome_readBack? {x : OnGrid} (h : readsBack m x.below ∨ readsBack m x.above) :
    (x.readBack? tie m).isSome := by
  rw [readBack?]
  rcases h with hbelow | habove
  · rw [hbelow]
    cases readsBack m x.above <;> rfl
  · rw [habove]
    cases readsBack m x.below <;> rfl

/-! ## Seventeen digits -/

/-- Where the first digit of a magnitude stands, counted from some digit far behind the point. -/
theorem exists_decimalPoint_eq (hpos : 0 < m) : ∃ first offset : Nat,
    decimalPoint m = (first : Int) + 1 - offset ∧ 10 ^ first * one ≤ m * 10 ^ offset := by
  unfold decimalPoint
  have hlarge : 1074 ≤ 3 * 400 := by decide
  -- the power is not to be computed
  generalize hoffset : 400 = offset at hlarge ⊢
  have hleast : one ≤ 10 ^ offset := by
    calc one ≤ 2 ^ (3 * offset) := one_le_two_pow hlarge
      _ = 8 ^ offset := Nat.pow_mul 2 3 offset
      _ ≤ 10 ^ offset := Nat.pow_le_pow_left (by decide) offset
  rw [Nat.pow_eq]
  have hquotient : 0 < m * 10 ^ offset / one :=
    Nat.div_pos (hleast.trans (Nat.le_mul_of_pos_left _ hpos)) one_pos
  generalize hscaled : m * 10 ^ offset / one = scaled at hquotient
  have hlength := Nat.length_toDigits_pos (b := 10) (n := scaled)
  refine ⟨(Nat.toDigits 10 scaled).length - 1, offset, by omega, ?_⟩
  have hfirst : 10 ^ ((Nat.toDigits 10 scaled).length - 1) ≤ scaled := by
    rcases Nat.eq_zero_or_pos ((Nat.toDigits 10 scaled).length - 1) with hone | hmore
    · rw [hone, Nat.pow_zero]
      exact hquotient
    · refine Nat.le_of_not_lt fun hlt => ?_
      have hshort := (Nat.length_toDigits_le_iff (by decide) hmore).mpr hlt
      omega
  calc 10 ^ ((Nat.toDigits 10 scaled).length - 1) * one ≤ scaled * one :=
        Nat.mul_le_mul_right _ hfirst
    _ ≤ m * 10 ^ offset := hscaled ▸ Nat.div_mul_le_self _ _

theorem onGrid_eq (m count : Nat) :
    let power := (count : Int) - decimalPoint m
    onGrid m count = ⟨m * 10 ^ power.toNat, one * 10 ^ (-power).toNat, -power⟩ := by
  rw [onGrid, Decimal.scale_eq]

/-- A magnitude has at least as many digits as the grid that it lies on. -/
theorem le_numerator_onGrid (hpos : 0 < m) (n : Nat) :
    10 ^ n * (onGrid m (n + 1)).denominator ≤ (onGrid m (n + 1)).numerator := by
  obtain ⟨first, offset, hpoint, hle⟩ := exists_decimalPoint_eq hpos
  rw [onGrid_eq]
  generalize hpower : ((n + 1 : Nat) : Int) - decimalPoint m = power
  have hexponents : n + (-power).toNat + offset = power.toNat + first := by omega
  refine Nat.le_of_mul_le_mul_right (c := 10 ^ offset) ?_ (Nat.pow_pos (by decide))
  calc 10 ^ n * (one * 10 ^ (-power).toNat) * 10 ^ offset
      = 10 ^ (n + (-power).toNat + offset) * one := by
        rw [Nat.pow_add, Nat.pow_add]
        ring
    _ = 10 ^ power.toNat * (10 ^ first * one) := by
        rw [hexponents, Nat.pow_add]
        ring
    _ ≤ 10 ^ power.toNat * (m * 10 ^ offset) := Nat.mul_le_mul_left _ hle
    _ = m * 10 ^ power.toNat * 10 ^ offset := by ring

/-- A decimal of a grid is read back if it is less than half a spacing away from the magnitude, both
measured in the steps of the grid. -/
theorem onGrid_spec (representable : Representable m) (count : Nat) :
    ∃ scale, (onGrid m count).numerator = m * scale ∧ 0 < scale ∧
      0 < (onGrid m count).denominator ∧ ∀ digits,
        2 * (digits * (onGrid m count).denominator) <
          2 * (onGrid m count).numerator + spacing m * scale →
        2 * (onGrid m count).numerator <
          2 * (digits * (onGrid m count).denominator) + spacing (m - 1) * scale →
        readsBack m ⟨digits, (onGrid m count).exponent⟩ := by
  rw [onGrid_eq]
  generalize (count : Int) - decimalPoint m = power
  have hten : ∀ e, 0 < 10 ^ e := fun e => Nat.pow_pos (by decide)
  refine ⟨10 ^ power.toNat, rfl, hten _, Nat.mul_pos one_pos (hten _), ?_⟩
  intro digits habove hbelow
  have hunits : digits * 10 ^ (-power).toNat * one = digits * (one * 10 ^ (-power).toNat) := by ring
  rw [readsBack_iff representable, ofDecimal_eq]
  show ofUnits false (digits * 10 ^ (-power).toNat * one) (10 ^ (- -power).toNat) = _
  rw [hunits, Int.neg_neg]
  exact ofUnits_eq_of_near representable habove hbelow

/-- One of the two multiples of a narrow step around a number is near to it. -/
theorem near_below_or_above {n step down up : Nat} (hstep : 0 < step) (hnarrow : 10 ^ 16 * step ≤ n)
    (hdown : n ≤ 2 ^ precision * down) (hup : n ≤ 2 ^ precision * up) :
    2 * n < 2 * (n / step * step) + down ∨ 2 * ((n / step + 1) * step) < 2 * n + up := by
  have hless := Nat.lt_div_mul_add (a := n) hstep
  have hnext : (n / step + 1) * step = n / step * step + step := Nat.succ_mul _ _
  unfold precision at hdown hup
  -- were both far away, the step would be wide
  omega

/-- Seventeen digits are enough. -/
theorem isSome_shortestOf?_seventeen (representable : Representable m) (hpos : 0 < m) (tie : Tie) :
    (shortestOf? tie m 17).isSome := by
  obtain ⟨scale, hnumerator, hscale, hstep, hread⟩ := onGrid_spec representable 17
  have hdigits := le_numerator_onGrid hpos 16
  refine OnGrid.isSome_readBack? ?_
  generalize onGrid m 17 = x at *
  have hup : x.numerator ≤ 2 ^ precision * (spacing m * scale) := by
    rw [hnumerator, ← Nat.mul_assoc]
    exact Nat.mul_le_mul_right _ (lt_two_pow_mul_spacing m).le
  have hdown : x.numerator ≤ 2 ^ precision * (spacing (m - 1) * scale) := by
    rw [hnumerator, ← Nat.mul_assoc]
    exact Nat.mul_le_mul_right _ (Nat.le_of_pred_lt (lt_two_pow_mul_spacing (m - 1)))
  rcases near_below_or_above hstep hdigits hdown hup with hbelow | habove
  · have hle := Nat.div_mul_le_self x.numerator x.denominator
    have hwide : 0 < spacing m * scale := Nat.mul_pos (spacing_pos m) hscale
    exact .inl (hread _ (by omega) hbelow)
  · have hlt : x.numerator < (x.numerator / x.denominator + 1) * x.denominator :=
      Nat.lt_mul_of_div_lt (Nat.lt_succ_self _) hstep
    have hwide : 0 < spacing (m - 1) * scale := Nat.mul_pos (spacing_pos _) hscale
    exact .inr (hread _ habove (by omega))

/-- **The shortest decimal is read back.**  Among the decimals with one to seventeen digits one is
found, and the number nearest to it is the one that was searched for. -/
theorem ofDecimal_shortest (representable : Representable m) (hpos : 0 < m) (tie : Tie)
    (negative : Bool) :
    ofDecimal negative (shortest tie m) = .finite negative m representable := by
  refine ofDecimal_eq_finite ?_ negative
  rw [shortest, ofDecimal_strip, ← readsBack_iff]
  cases hfound : (List.range' 1 17).findSome? (shortestOf? tie m) with
  | none =>
      have hlast := List.findSome?_eq_none_iff.mp hfound 17 (by decide)
      have hsome := isSome_shortestOf?_seventeen representable hpos tie
      rw [hlast] at hsome
      cases hsome
  | some d =>
      obtain ⟨count, -, hcount⟩ := List.exists_of_findSome?_eq_some hfound
      exact OnGrid.readsBack_of_readBack? hcount

end Binary64

end DesignTokens
