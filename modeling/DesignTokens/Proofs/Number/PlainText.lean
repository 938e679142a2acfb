import DesignTokens.Number.Notation
import DesignTokens.Proofs.Number.Numeral
import DesignTokens.Proofs.Number.Shortest
import Mathlib.Data.List.TakeWhile

/-!
# Numbers in running text are read back

A number in running text is a numeral for that number (`numeral?_plainText`).  The digits that are
written are those of its shortest decimal, which is read back wherever the point is put
(`exists_decimal?_layPositional`): zeros before the first digit are worth nothing, and those behind
the last one are made up for by the exponent.
-/

namespace DesignTokens

open NumberStyle

variable {whole fraction digits : List Char}

namespace Numeral

/-! ## Runs of digits -/

theorem digitsValue_eq (digits : List Char) :
    digitsValue digits = Nat.ofDigitChars 10 digits 0 := by
  simp only [digitsValue, Nat.ofDigitChars_eq_foldl, Nat.mul_comm]

private theorem digitsValue_digitsOf (n : Nat) : digitsValue (digitsOf n) = n := by
  rw [digitsValue_eq, digitsOf, Nat.ofDigitChars_ten_toDigits]

private theorem digitsValue_append_zeros (digits : List Char) (zeros : Nat) :
    digitsValue (digits ++ List.replicate zeros '0') = digitsValue digits * 10 ^ zeros := by
  rw [digitsValue_eq, digitsValue_eq, Nat.ofDigitChars_append, Nat.ofDigitChars_replicate_zero,
    Nat.mul_comm]

theorem digitsValue_zeros_append (zeros : Nat) (digits : List Char) :
    digitsValue (List.replicate zeros '0' ++ digits) = digitsValue digits := by
  rw [digitsValue_eq, digitsValue_eq, Nat.ofDigitChars_append, Nat.ofDigitChars_replicate_zero,
    Nat.mul_zero]

private theorem isDigit_of_mem_digitsOf (n : Nat) : ∀ c ∈ digitsOf n, c.isDigit :=
  fun _ hc => Nat.isDigit_of_mem_toDigits (by decide) (by decide) hc

theorem isDigit_of_mem_zeros (zeros : Nat) : ∀ c ∈ List.replicate zeros '0', c.isDigit := by
  intro c hc
  rw [(List.mem_replicate.mp hc).2]
  rfl

/-! ## Numerals with and without a point -/

private theorem decimal?_of_digits (hne : digits ≠ []) (h : ∀ c ∈ digits, c.isDigit) :
    decimal? digits = some ⟨digitsValue digits, 0⟩ := by
  rw [decimal?, List.takeWhile_eq_self_iff.mpr h, List.dropWhile_eq_nil_iff.mpr h]
  simp [hne, exponent?]

theorem decimal?_of_point (hne : whole ≠ []) (hwhole : ∀ c ∈ whole, c.isDigit)
    (hfraction : ∀ c ∈ fraction, c.isDigit) : decimal? (whole ++ '.' :: fraction) =
      some ⟨digitsValue (whole ++ fraction), -fraction.length⟩ := by
  have htake : (whole ++ '.' :: fraction).takeWhile Char.isDigit = whole := by
    rw [List.takeWhile_append_of_pos hwhole, List.takeWhile_cons_of_neg (by decide),
      List.append_nil]
  have hdrop : (whole ++ '.' :: fraction).dropWhile Char.isDigit = '.' :: fraction := by
    rw [List.dropWhile_append_of_pos hwhole, List.dropWhile_cons_of_neg (by decide)]
  rw [decimal?, htake, hdrop]
  simp [hne, List.takeWhile_eq_self_iff.mpr hfraction, List.dropWhile_eq_nil_iff.mpr hfraction,
    exponent?]

/-- Wherever the point is put, the digits are read as the decimal that was laid out. -/
theorem exists_decimal?_layPositional (n : Nat) (exponent : Int) : ∃ d,
    decimal? (plain.layPositional (digitsOf n) ((digitsOf n).length + exponent)) = some d ∧
      ∀ negative, Binary64.ofDecimal negative d = Binary64.ofDecimal negative ⟨n, exponent⟩ := by
  have hdigits := isDigit_of_mem_digitsOf n
  have hvalue := digitsValue_digitsOf n
  have hne : digitsOf n ≠ [] := Nat.toDigits_ne_nil
  -- of the digits only their value counts, and that there are some
  generalize digitsOf n = digits at hdigits hvalue hne ⊢
  have hzero : ∀ c ∈ ['0'], c.isDigit := List.forall_mem_singleton.mpr (by decide)
  cases hpoint : (digits.length : Int) + exponent with
  | ofNat before =>
      rw [Int.ofNat_eq_natCast] at hpoint
      simp only [layPositional]
      split_ifs with hshort hnone
      · -- a whole number, with zeros at its end
        have hzeros := isDigit_of_mem_zeros (before - digits.length)
        have hall : ∀ c ∈ digits ++ List.replicate (before - digits.length) '0', c.isDigit :=
          List.forall_mem_append.mpr ⟨hdigits, hzeros⟩
        rw [show plain.wholeFraction.toList = [] from rfl, List.append_nil]
        refine ⟨_, decimal?_of_digits (by simp [hne]) hall, fun negative => ?_⟩
        rw [digitsValue_append_zeros, hvalue, Binary64.ofDecimal_shift]
        congr 2
        omega
      · -- all digits stand behind the point
        refine ⟨_, decimal?_of_point (List.cons_ne_nil _ _) hzero hdigits, fun negative => ?_⟩
        rw [show ['0'] = List.replicate 1 '0' from rfl, digitsValue_zeros_append, hvalue]
        congr 2
        omega
      · -- the point parts the digits
        have hsplit := List.take_append_drop before digits
        have hparts := List.forall_mem_append.mp (hsplit.symm ▸ hdigits)
        refine ⟨_, decimal?_of_point ?_ hparts.1 hparts.2, fun negative => ?_⟩
        · simp [hnone, hne]
        · rw [hsplit, hvalue, List.length_drop]
          congr 2
          omega
  | negSucc zeros =>
      -- zeros stand between the point and the digits
      have hzeros := isDigit_of_mem_zeros (zeros + 1)
      have hfraction : ∀ c ∈ List.replicate (zeros + 1) '0' ++ digits, c.isDigit :=
        List.forall_mem_append.mpr ⟨hzeros, hdigits⟩
      refine ⟨_, decimal?_of_point (List.cons_ne_nil _ _) hzero hfraction, fun negative => ?_⟩
      rw [show ['0'] = List.replicate 1 '0' from rfl, digitsValue_zeros_append,
        digitsValue_zeros_append, hvalue, List.length_append, List.length_replicate]
      congr 2
      omega

end Numeral

/-! ## Texts of numbers -/

namespace Binary64

/-- The text of a magnitude is its shortest decimal, laid out with its point. -/
theorem magnitudeText_plain {magnitude : Nat} (hne : magnitude ≠ 0) :
    plain.magnitudeText magnitude =
      plain.layPositional (digitsOf (shortest .up magnitude).digits)
        ((digitsOf (shortest .up magnitude).digits).length +
          (shortest .up magnitude).exponent) := by
  rw [magnitudeText, if_neg hne]
  exact if_pos rfl

private theorem exists_decimal?_magnitudeText {magnitude : Nat}
    (representable : Representable magnitude) (negative : Bool) :
    ∃ d, Numeral.decimal? (plain.magnitudeText magnitude) = some d ∧
      ofDecimal negative d = .finite negative magnitude representable := by
  by_cases hzero : magnitude = 0
  · subst hzero
    exact ⟨⟨0, 0⟩, rfl, rfl⟩
  · have hback := ofDecimal_shortest representable (Nat.pos_of_ne_zero hzero) .up negative
    rw [magnitudeText_plain hzero]
    generalize shortest .up magnitude = s at hback ⊢
    obtain ⟨digits, exponent⟩ := s
    obtain ⟨d, hd, hvalue⟩ := Numeral.exists_decimal?_layPositional digits exponent
    exact ⟨d, hd, (hvalue negative).trans hback⟩

/-- **A number in running text is read back**, whatever the number. -/
theorem numeral?_plainText (x : Binary64) : numeral? x.plainText = some x := by
  cases x with
  | nan => decide
  | infinite negative => cases negative <;> decide
  | finite negative magnitude representable =>
      obtain ⟨d, hd, hvalue⟩ := exists_decimal?_magnitudeText representable negative
      rw [plainText, text, numeral?_of_decimal? hd negative, hvalue]

end Binary64

end DesignTokens
