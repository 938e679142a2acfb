import DesignTokens.Number.Numeral
import DesignTokens.Proofs.Text.Path
import Mathlib.Data.List.TakeWhile

/-!
# What numerals are made of

A numeral has digits, signs and points in it, the letter of an exponent or those of a word for a
number, and nothing else (`Numeral.isPart_of_numeral?`).  So it has no blanks, and no text is a
numeral that has any other letter.
-/

namespace DesignTokens

variable {text : String} {x : Binary64} {chars : List Char}

/-! ## Words and decimals -/

/-- The words that stand for numbers. -/
def Numeral.words : List String := ["inf", "infinity", "nan"]

/-- Behind its sign, what is none of the words is read as a decimal. -/
theorem numeral?_of_no_word {negative : Bool}
    (hsign : Numeral.sign text.toList = (negative, chars))
    (hword : String.ofList (chars.map Char.toLower) ∉ Numeral.words) :
    numeral? text = (Numeral.decimal? chars).map (Binary64.ofDecimal negative) := by
  have hother : ∀ word ∈ Numeral.words, String.ofList (chars.map Char.toLower) ≠ word :=
    fun _ hmem heq => hword (heq ▸ hmem)
  rw [numeral?, hsign]
  show (if _ ∨ _ then _ else _) = _
  rw [if_neg (not_or.mpr ⟨hother "inf" (by decide), hother "infinity" (by decide)⟩),
    if_neg (hother "nan" (by decide))]

/-- A decimal begins with a digit or a point. -/
theorem Numeral.isDigit_or_of_decimal? {c : Char} {rest : List Char} {d : Decimal}
    (h : decimal? (c :: rest) = some d) : c.isDigit ∨ c = '.' := by
  by_contra hother
  obtain ⟨hdigit, hpoint⟩ := not_or.mp hother
  rw [decimal?, List.takeWhile_cons_of_neg hdigit, List.dropWhile_cons_of_neg hdigit] at h
  split at h
  next fraction tail hfraction =>
  split at hfraction
  · next heq => exact hpoint (List.cons.inj heq).1
  · obtain ⟨rfl, -⟩ := Prod.mk.inj hfraction
    simp at h

/-- A decimal is a numeral, also with a minus before it. -/
theorem numeral?_of_decimal? {d : Decimal} (h : Numeral.decimal? chars = some d) (negative : Bool) :
    numeral? (String.ofList (if negative then '-' :: chars else chars)) =
      some (Binary64.ofDecimal negative d) := by
  obtain ⟨c, rest, rfl⟩ : ∃ c rest, chars = c :: rest :=
    List.exists_cons_of_ne_nil (by rintro rfl; cases h)
  have hfirst := Numeral.isDigit_or_of_decimal? h
  have hsign : Numeral.sign (if negative then '-' :: c :: rest else c :: rest) =
      (negative, c :: rest) := by
    cases negative with
    | true => rfl
    | false =>
        show Numeral.sign (c :: rest) = _
        unfold Numeral.sign
        split
        · next heq =>
          obtain ⟨rfl, -⟩ := List.cons.inj heq
          exact absurd hfirst (by decide)
        · next heq =>
          obtain ⟨rfl, -⟩ := List.cons.inj heq
          exact absurd hfirst (by decide)
        · rfl
  -- the words for numbers begin with letters
  have hword : String.ofList ((c :: rest).map Char.toLower) ∉ Numeral.words := by
    intro hword
    have hletter : ∀ word ∈ Numeral.words,
        word.toList.head?.all fun first => !(first.isDigit || first == '.') := by decide
    have hlower := hletter _ hword
    rw [String.toList_ofList, List.map_cons, List.head?_cons, Option.all_some,
      Text.isDigit_toLower, Text.toLower_beq (by decide)] at hlower
    rcases hfirst with hdigit | rfl
    · rw [hdigit] at hlower
      exact absurd hlower (by simp)
    · exact absurd hlower (by decide)
  rw [numeral?_of_no_word (by rwa [String.toList_ofList]) hword, h, Option.map_some]

namespace Numeral

/-! ## Characters -/

/-- The letters of numerals, lowered, with signs and points. -/
def marks : List Char := ['+', '-', '.', 'e', 'i', 'n', 'f', 't', 'y', 'a']

/-- The characters of numerals. -/
def isPart (c : Char) : Bool := c.isDigit || marks.contains c.toLower

theorem isPart_of_isDigit {c : Char} (h : c.isDigit) : isPart c := by
  rw [isPart, h, Bool.true_or]

theorem isBlank_of_isPart {c : Char} (h : isPart c) : Text.isBlank c = false := by
  rcases (Bool.or_eq_true _ _).mp h with hdigit | hletter
  · exact Text.isBlank_of_isDigit hdigit
  · have hplain : marks.all fun d => !Text.isBlank d := by decide
    rw [← Text.isBlank_toLower]
    have hmarked := List.all_eq_true.mp hplain _ (List.contains_iff_mem.mp hletter)
    exact by simpa using hmarked

theorem exists_eq_append_sign (chars : List Char) :
    ∃ mark, (∀ c ∈ mark, isPart c) ∧ chars = mark ++ (sign chars).2 := by
  unfold sign
  split
  · exact ⟨['-'], List.forall_mem_singleton.mpr (by decide), rfl⟩
  · exact ⟨['+'], List.forall_mem_singleton.mpr (by decide), rfl⟩
  · exact ⟨[], by simp, rfl⟩

private theorem isPart_of_exponent? {power : Int} (h : exponent? chars = some power) :
    ∀ c ∈ chars, isPart c := by
  cases chars with
  | nil => simp
  | cons c rest =>
      obtain ⟨mark, hmark, hrest⟩ := exists_eq_append_sign rest
      rw [exponent?, Option.ite_none_right_eq_some] at h
      obtain ⟨hletter, h⟩ := h
      generalize sign rest = signed at h hrest
      obtain ⟨negative, digits⟩ := signed
      have hdigits : digits.all Char.isDigit := by
        have hsome := (Option.ite_none_left_eq_some.mp h).1
        simp only [Bool.or_eq_true, Bool.not_eq_true', not_or, Bool.not_eq_false] at hsome
        exact hsome.2
      have hfirst : isPart c := by rcases hletter with rfl | rfl <;> decide
      rw [hrest]
      refine List.forall_mem_cons.mpr ⟨hfirst, List.forall_mem_append.mpr ⟨hmark, ?_⟩⟩
      exact fun d hd => isPart_of_isDigit (List.all_eq_true.mp hdigits d hd)

private theorem isPart_of_decimal? {d : Decimal} (h : decimal? chars = some d) :
    ∀ c ∈ chars, isPart c := by
  have hrun : ∀ run : List Char, ∀ c ∈ run.takeWhile Char.isDigit, isPart c :=
    fun run c hc => isPart_of_isDigit (List.mem_takeWhile_imp hc)
  rw [← List.takeWhile_append_dropWhile (p := Char.isDigit) (l := chars)]
  refine List.forall_mem_append.mpr ⟨hrun chars, ?_⟩
  rw [decimal?] at h
  generalize chars.dropWhile Char.isDigit = rest at h ⊢
  split at h
  next fraction exponent hsplit =>
  obtain ⟨power, hpower, -⟩ := Option.map_eq_some_iff.mp (Option.ite_none_left_eq_some.mp h).2
  have hexponent := isPart_of_exponent? hpower
  split at hsplit
  · next tail =>
    obtain ⟨rfl, rfl⟩ := Prod.mk.inj hsplit
    refine List.forall_mem_cons.mpr ⟨by decide, ?_⟩
    rw [← List.takeWhile_append_dropWhile (p := Char.isDigit) (l := tail)]
    exact List.forall_mem_append.mpr ⟨hrun tail, hexponent⟩
  · obtain ⟨rfl, rfl⟩ := Prod.mk.inj hsplit
    exact hexponent

/-- Whatever is read as a number is made of such characters. -/
theorem isPart_of_numeral? (h : numeral? text = some x) : ∀ c ∈ text.toList, isPart c := by
  obtain ⟨mark, hmark, htext⟩ := exists_eq_append_sign text.toList
  obtain ⟨⟨negative, body⟩, hsign⟩ : ∃ signed, sign text.toList = signed := ⟨_, rfl⟩
  rw [htext, hsign]
  refine List.forall_mem_append.mpr ⟨hmark, fun c hc => ?_⟩
  by_cases hword : String.ofList (body.map Char.toLower) ∈ words
  · have hmarks : ∀ word ∈ words, word.toList.all marks.contains := by decide
    have hlower := List.all_eq_true.mp (hmarks _ hword) c.toLower (by
      rw [String.toList_ofList]
      exact List.mem_map_of_mem hc)
    rw [isPart, hlower, Bool.or_true]
  · rw [numeral?_of_no_word hsign hword] at h
    obtain ⟨d, hd, -⟩ := Option.map_eq_some_iff.mp h
    exact isPart_of_decimal? hd c hc

end Numeral

end DesignTokens
