import DesignTokens.Proofs.FontStyle.Fused

/-!
# Weights inside of texts

The weight of a text can be read in two ways, as that of the whole text (`FontWeight.ofText?`) or as
that of the style which the text is taken apart to (`FontStyle.ofText`).  What is found in the first
way is found in the second way as well (`ofText_of_weight`), also if it is a number, since a numeral
is one word and no qualifier (`words_of_numeral?`).

A text is *combined* if its weight is found in the second way only.  It has a qualifier in it then,
as a word or at its end, or a blank that is no space (`IsCombined.exists_reason`), and it is no
numeral (`not_isCombined_of_numeral?`).
-/

namespace DesignTokens.FontStyle

variable {text : String} {x weight : Binary64}

/-! ## Numerals as words -/

/-- A numeral has no letters but some. -/
theorem toLower_ne_of_numeral? (h : numeral? text = some x) {d : Char} (hdigit : d.isDigit = false)
    (hmarks : Numeral.marks.contains d = false) : ∀ c ∈ text.toList, c.toLower ≠ d := by
  rintro c hc rfl
  have hpart := Numeral.isPart_of_numeral? h c hc
  rw [Text.isDigit_toLower] at hdigit
  rw [Numeral.isPart, hdigit, hmarks] at hpart
  cases hpart

theorem isWord_of_numeral? (h : numeral? text = some x) : Text.IsWord text where
  ne_empty := by
    rintro rfl
    cases h
  unbroken c hc := Numeral.isBlank_of_isPart (Numeral.isPart_of_numeral? h c hc)

theorem isQualifier_of_numeral? (h : numeral? text = some x) : isQualifier text = false := by
  have hletter : ∀ q ∈ qualifiers, 'l' ∈ q.toList := by decide
  refine Bool.eq_false_iff.mpr fun hqualifier => ?_
  obtain ⟨q, hq, hsame⟩ := isQualifier_iff.mp hqualifier
  have hmem := hletter q hq
  rw [← map_toLower_of_sameIgnoringCase hq hsame] at hmem
  obtain ⟨c, hc, hlower⟩ := List.mem_map.mp hmem
  exact toLower_ne_of_numeral? h (by decide) (by decide) c hc hlower

/-- A numeral with blanks around it is one word. -/
theorem words_of_numeral? (h : numeral? (Text.trim text) = some x) :
    Text.words text = [Text.trim text] := by
  rw [← Text.words_trim, Text.words_of_isWord (isWord_of_numeral? h)]

/-! ## One weight in two ways -/

theorem ofText?_congr {other : String} (h : Text.trim text = Text.trim other) :
    FontWeight.ofText? text = FontWeight.ofText? other := by
  rw [FontWeight.ofText?, h, FontWeight.ofText?]

/-- Without a qualifier the words of a text are those of its rest. -/
theorem words_withoutQualifiers_of_not_qualified (h : isQualified text = false) :
    Text.words (withoutQualifiers text) = Text.words text := by
  rw [words_withoutQualifiers, List.filter_eq_self]
  simpa [isQualified] using h

/-- If the words of a text are a weight, its style is that weight. -/
theorem ofText_of_weight_of_rest (hqualified : isQualified text = false)
    (h : FontWeight.ofText? (withoutQualifiers text) = some weight) :
    ofText text = ⟨some weight, false⟩ := by
  have hne : withoutQualifiers text ≠ "" := by
    intro hempty
    have hnone : FontWeight.ofText? "" = none := by decide
    rw [hempty, hnone] at h
    cases h
  rw [ofText_of_ne_empty hne, ofRest, h, hqualified]
  rfl

/-- **A weight is a style.**  Taken apart, a text that is a weight has that weight and no slant. -/
theorem ofText_of_weight (h : FontWeight.ofText? text = some weight) :
    ofText text = ⟨some weight, false⟩ := by
  cases hnumeral : numeral? (Text.trim text) with
  | some x =>
      have hwords := words_of_numeral? hnumeral
      have hqualified : isQualified text = false := by
        rw [isQualified, hwords, List.any_cons, isQualifier_of_numeral? hnumeral]
        rfl
      have hrest := words_withoutQualifiers_of_not_qualified hqualified
      rw [hwords] at hrest
      refine ofText_of_weight_of_rest hqualified ?_
      rw [ofText?_congr (Text.trim_of_words_eq_singleton hrest), h]
  | none =>
      obtain ⟨entry, hentry, hletters, rfl⟩ := FontWeight.exists_mem_words_of_ofText? h hnumeral
      have hqualified := isQualified_of_letters hentry hletters
      refine ofText_of_weight_of_rest hqualified ?_
      refine FontWeight.ofText?_of_mem_words hentry (eq_space_of_mem_withoutQualifiers text) ?_
      rw [letters_withoutQualifiers_of_not_qualified hqualified, hletters]

/-! ## Combined texts -/

/-- A text whose weight is found only when it is taken apart. -/
def IsCombined (text : String) : Prop :=
  FontWeight.ofText? text = none ∧ (ofText text).weight ≠ none

instance (text : String) : Decidable (IsCombined text) := inferInstanceAs (Decidable (_ ∧ _))

/-- Other texts have the same weight either way. -/
theorem weight_ofText_of_not_isCombined (h : ¬ IsCombined text) :
    (ofText text).weight = FontWeight.ofText? text := by
  cases hweight : FontWeight.ofText? text with
  | some weight => rw [ofText_of_weight hweight]
  | none =>
      by_contra hne
      exact h ⟨hweight, hne⟩

/-- The words of a text are no weight if the text is none and has only spaces between them. -/
theorem ofText?_withoutQualifiers (hqualified : isQualified text = false)
    (hspaced : ∀ c ∈ (Text.trim text).toList, Text.isBlank c → c = ' ')
    (h : FontWeight.ofText? text = none) : FontWeight.ofText? (withoutQualifiers text) = none := by
  refine Option.eq_none_iff_forall_ne_some.mpr fun weight hrest => ?_
  rw [← ofText?_congr (Text.trim_trim text)] at h
  refine absurd h (Option.ne_none_iff_exists'.mpr ⟨weight, ?_⟩)
  cases hnumeral : numeral? (Text.trim (withoutQualifiers text)) with
  | some x =>
      have hwords := words_of_numeral? hnumeral
      rw [words_withoutQualifiers_of_not_qualified hqualified] at hwords
      rw [ofText?_congr (Text.trim_trim text),
        ofText?_congr (Text.trim_of_words_eq_singleton hwords), hrest]
  | none =>
      obtain ⟨entry, hentry, hletters, rfl⟩ :=
        FontWeight.exists_mem_words_of_ofText? hrest hnumeral
      refine FontWeight.ofText?_of_mem_words hentry hspaced ?_
      rw [FontWeight.letters_trim, ← letters_withoutQualifiers_of_not_qualified hqualified,
        hletters]

/-- **What combines a text.**  One of its words is a qualifier, or the word `italic` ends it, or
there is a blank in it that is no space. -/
theorem IsCombined.exists_reason (h : IsCombined text) :
    (∃ word ∈ Text.words text, isQualifier word) ∨
      (∃ stem, FontWeight.letters text = stem ++ "italic".toList) ∨
      ∃ c ∈ (Text.trim text).toList, Text.isBlank c ∧ c ≠ ' ' := by
  by_contra hnone
  obtain ⟨hqualifier, hitalic, hblank⟩ : _ ∧ _ ∧ _ := by simpa only [not_or] using hnone
  have hqualified : isQualified text = false :=
    Bool.eq_false_iff.mpr fun hsome => hqualifier (List.any_eq_true.mp hsome)
  have hspaced : ∀ c ∈ (Text.trim text).toList, Text.isBlank c → c = ' ' := by
    intro c hc hother
    by_contra hne
    exact hblank ⟨c, hc, hother, hne⟩
  have hrest := ofText?_withoutQualifiers hqualified hspaced h.1
  have hend : Text.dropEnd? (FontWeight.squash (withoutQualifiers text)) "italic" = none := by
    refine Option.eq_none_iff_forall_ne_some.mpr fun stem hstem => hitalic ⟨stem.toList, ?_⟩
    rw [← letters_withoutQualifiers_of_not_qualified hqualified,
      ← FontWeight.toList_squash_of_spaced (eq_space_of_mem_withoutQualifiers text),
      Text.dropEnd?_eq_some_iff.mp hstem, String.toList_append]
  -- with none of the three both readings would look up the same letters
  refine h.2 ?_
  by_cases hempty : withoutQualifiers text = ""
  · rw [ofText_of_empty hempty, hqualified]
    rfl
  · rw [ofText_of_ne_empty hempty, ofRest, hrest, hend]

/-- So a numeral is not combined, whether it is a weight or not. -/
theorem not_isCombined_of_numeral? (h : numeral? (Text.trim text) = some x) :
    ¬ IsCombined text := by
  intro hcombined
  rcases hcombined.exists_reason with
    ⟨word, hmem, hqualifier⟩ | ⟨stem, hletters⟩ | ⟨c, hc, hblank, -⟩
  · rw [words_of_numeral? h, List.mem_singleton] at hmem
    rw [hmem, isQualifier_of_numeral? h] at hqualifier
    cases hqualifier
  · have hmem : 'l' ∈ FontWeight.letters (Text.trim text) := by
      rw [FontWeight.letters_trim, hletters]
      exact List.mem_append_right _ (by decide)
    obtain ⟨c, hc, hlower⟩ := List.mem_map.mp hmem
    exact toLower_ne_of_numeral? h (by decide) (by decide) c (List.mem_filter.mp hc).1 hlower
  · rw [(isWord_of_numeral? h).unbroken c hc] at hblank
    cases hblank

end DesignTokens.FontStyle
