import DesignTokens.Text.Blank
import DesignTokens.Text.Path
import Mathlib.Data.List.Infix
import Mathlib.Data.List.TakeWhile

/-!
# Case and endings

To lower a character changes capitals only, and makes small letters of them.  So it keeps whatever
holds of no letter (`apply_toLower`): to be a blank or a digit, or to be a certain character that is
no letter.

An ending comes off a text exactly if the text is made of something and the ending, and that is what
is left (`dropEnd?_eq_some_iff`), and so does a beginning (`dropStart?_eq_some_iff`).  A path with a
slash begins with a part that has none (`firstOfMany?_eq_some_iff`), and every path ends with one
(`leaf_eq_iff`).
-/

namespace DesignTokens.Text

/-! ## Case -/

/-- A character is lowered to itself, or it is a capital and lowered to a small letter. -/
theorem toLower_eq_or (c : Char) : c.toLower = c ∨
    (65 ≤ c.toNat ∧ c.toNat ≤ 90) ∧ c.toLower.toNat = c.toNat + 32 := by
  unfold Char.toLower
  split
  · next hcapital =>
    have hlow : 65 ≤ c.val.toNat := UInt32.le_iff_toNat_le.mp hcapital.1
    have hhigh : c.val.toNat ≤ 90 := UInt32.le_iff_toNat_le.mp hcapital.2
    refine .inr ⟨⟨hlow, hhigh⟩, ?_⟩
    show (c.val + 32).toNat = c.val.toNat + 32
    rw [UInt32.toNat_add]
    have hstep : (32 : UInt32).toNat = 32 := rfl
    omega
  · exact .inl rfl

/-- The code of a letter from `A` to `Z` or from `a` to `z`. -/
def IsLetterCode (code : Nat) : Prop := 65 ≤ code ∧ code ≤ 90 ∨ 97 ≤ code ∧ code ≤ 122

instance (code : Nat) : Decidable (IsLetterCode code) := inferInstanceAs (Decidable (_ ∨ _))

/-- What holds of no letter holds of a character exactly if it holds of the lowered one. -/
theorem apply_toLower {p : Char → Bool} (hletter : ∀ c, IsLetterCode c.toNat → p c = false)
    (c : Char) : p c.toLower = p c := by
  rcases toLower_eq_or c with heq | ⟨hcapital, heq⟩
  · rw [heq]
  · rw [hletter c (.inl hcapital), hletter c.toLower (.inr (by omega))]

@[simp] theorem isBlank_toLower (c : Char) : isBlank c.toLower = isBlank c := by
  refine apply_toLower ?_ c
  intro c hletter
  unfold IsLetterCode at hletter
  simp only [isBlank, Bool.or_eq_false_iff, Bool.and_eq_false_iff, decide_eq_false_iff_not,
    beq_eq_false_iff_ne]
  omega

@[simp] theorem isDigit_toLower (c : Char) : c.toLower.isDigit = c.isDigit := by
  refine apply_toLower (p := Char.isDigit) ?_ c
  intro c hletter
  unfold IsLetterCode at hletter
  have hhigh : (c.val ≤ '9'.val) = (c.toNat ≤ 57) := propext UInt32.le_iff_toNat_le
  simp only [Char.isDigit, hhigh, Bool.and_eq_false_iff, decide_eq_false_iff_not]
  omega

theorem isAlphanum_of_isLetterCode {c : Char} (h : IsLetterCode c.toNat) : c.isAlphanum := by
  have hrange : ∀ low high : Char, low.toNat ≤ c.toNat → c.toNat ≤ high.toNat →
      low.val ≤ c.val ∧ c.val ≤ high.val := by
    intro low high hlow hhigh
    exact ⟨UInt32.le_iff_toNat_le.mpr hlow, UInt32.le_iff_toNat_le.mpr hhigh⟩
  show ((c.isUpper || c.isLower) || c.isDigit) = true
  rcases h with ⟨hlow, hhigh⟩ | ⟨hlow, hhigh⟩
  · have hcapital : c.isUpper := decide_eq_true (hrange 'A' 'Z' hlow hhigh)
    rw [hcapital, Bool.true_or, Bool.true_or]
  · have hsmall : c.isLower :=
      Bool.and_eq_true_iff.mpr ((hrange 'a' 'z' hlow hhigh).imp decide_eq_true decide_eq_true)
    rw [hsmall, Bool.or_true, Bool.true_or]

@[simp] theorem isAlphanum_toLower (c : Char) : c.toLower.isAlphanum = c.isAlphanum := by
  rcases toLower_eq_or c with heq | ⟨hcapital, heq⟩
  · rw [heq]
  · rw [isAlphanum_of_isLetterCode (.inl hcapital),
      isAlphanum_of_isLetterCode (.inr (by omega))]

theorem isBlank_of_isDigit {c : Char} (h : c.isDigit) : isBlank c = false := by
  simp only [Char.isDigit, Bool.and_eq_true, decide_eq_true_eq] at h
  have hlow : 48 ≤ c.toNat := UInt32.le_iff_toNat_le.mp h.1
  have hhigh : c.toNat ≤ 57 := UInt32.le_iff_toNat_le.mp h.2
  simp only [isBlank, Bool.or_eq_false_iff, Bool.and_eq_false_iff, decide_eq_false_iff_not,
    beq_eq_false_iff_ne]
  omega

/-- Only a character itself is lowered to it, if it is no letter. -/
theorem toLower_beq {d : Char} (hletter : ¬ IsLetterCode d.toNat) (c : Char) :
    (c.toLower == d) = (c == d) := by
  refine apply_toLower (p := (· == d)) ?_ c
  intro c hc
  rw [beq_eq_false_iff_ne]
  rintro rfl
  exact hletter hc

/-! ## Endings -/

theorem dropEnd?_eq_some_iff {text ending stem : String} :
    dropEnd? text ending = some stem ↔ text = stem ++ ending := by
  rw [dropEnd?, Option.map_eq_some_iff]
  constructor
  · rintro ⟨front, hfront, rfl⟩
    rw [List.isSuffixOf?_eq_some_iff_append_eq] at hfront
    rw [← String.toList_inj, ← hfront, String.toList_append, String.toList_ofList]
  · intro htext
    refine ⟨stem.toList, ?_, String.ofList_toList⟩
    rw [List.isSuffixOf?_eq_some_iff_append_eq, htext, String.toList_append]

/-! ## Beginnings -/

theorem dropStart?_eq_some_iff {text start rest : String} :
    dropStart? text start = some rest ↔ text = start ++ rest := by
  rw [dropStart?, Option.map_eq_some_iff]
  constructor
  · rintro ⟨back, hback, rfl⟩
    rw [List.isPrefixOf?_eq_some_iff_append_eq] at hback
    rw [← String.toList_inj, ← hback, String.toList_append, String.toList_ofList]
  · intro htext
    refine ⟨rest.toList, ?_, String.ofList_toList⟩
    rw [List.isPrefixOf?_eq_some_iff_append_eq, htext, String.toList_append]

theorem takeWhile_ne_slash {front : List Char} (h : '/' ∉ front) (back : List Char) :
    (front ++ '/' :: back).takeWhile (· != '/') = front := by
  rw [List.takeWhile_append_of_pos]
  · simp
  · intro c hc
    exact bne_iff_ne.mpr fun heq => h (heq ▸ hc)

private theorem takeWhile_ne_slash_eq_iff {chars name : List Char} :
    chars.takeWhile (· != '/') = name ↔
      '/' ∉ name ∧ (chars = name ∨ ∃ rest, chars = name ++ '/' :: rest) := by
  constructor
  · rintro rfl
    refine ⟨fun hslash => by simpa using List.mem_takeWhile_imp hslash, ?_⟩
    by_cases hmem : '/' ∈ chars
    · obtain ⟨front, back, rfl, hfront⟩ := List.eq_append_cons_of_mem hmem
      exact .inr ⟨back, by rw [takeWhile_ne_slash hfront]⟩
    · refine .inl (List.takeWhile_eq_self_iff.mpr fun c hc => ?_).symm
      exact bne_iff_ne.mpr fun heq => hmem (heq ▸ hc)
  · rintro ⟨hslash, rfl | ⟨rest, rfl⟩⟩
    · exact List.takeWhile_eq_self_iff.mpr fun c hc => bne_iff_ne.mpr fun heq => hslash (heq ▸ hc)
    · exact takeWhile_ne_slash hslash rest

/-- The last part of a path has no slash.  It is the whole path, or it follows a slash. -/
theorem leaf_eq_iff {path name : String} : leaf path = name ↔
    '/' ∉ name.toList ∧ (path = name ∨ ∃ parent, path = parent ++ "/" ++ name) := by
  rw [← String.toList_inj, toList_leaf, leafChars, List.reverse_eq_iff, takeWhile_ne_slash_eq_iff,
    List.mem_reverse, List.reverse_inj, String.toList_inj]
  refine and_congr_right fun _ => or_congr_right ?_
  constructor
  · rintro ⟨rest, hrest⟩
    refine ⟨String.ofList rest.reverse, ?_⟩
    rw [← String.toList_inj, ← List.reverse_inj, hrest]
    simp
  · rintro ⟨parent, rfl⟩
    exact ⟨parent.toList.reverse, by simp⟩

/-- A path that has more than one part is its first part, a slash and the others. -/
theorem firstOfMany?_eq_some_iff {path first : String} : firstOfMany? path = some first ↔
    '/' ∉ first.toList ∧ ∃ rest, path = first ++ "/" ++ rest := by
  rw [firstOfMany?, Option.ite_none_right_eq_some, Option.some.injEq, List.contains_iff_mem]
  constructor
  · rintro ⟨hslash, rfl⟩
    obtain ⟨front, back, hpath, hfront⟩ := List.eq_append_cons_of_mem hslash
    rw [hpath, takeWhile_ne_slash hfront, String.toList_ofList]
    refine ⟨hfront, String.ofList back, ?_⟩
    rw [← String.toList_inj, hpath]
    simp
  · rintro ⟨hfirst, rest, rfl⟩
    have hpath : (first ++ "/" ++ rest).toList = first.toList ++ '/' :: rest.toList := by simp
    rw [hpath, takeWhile_ne_slash hfirst, String.ofList_toList]
    exact ⟨by simp, rfl⟩

end DesignTokens.Text
