import DesignTokens.Proofs.FontStyle.Letters
import DesignTokens.Proofs.FontStyle.Qualifiers

/-!
# Qualifiers behind a weight

If the letters of a text are those of a word for a weight and of a qualifier behind it, all that
the style still depends on is whether the qualifier is a word of the text (`ofText_of_letters`).  If
it is, the letters of the other words are those of the weight, since no word for a weight has a
qualifier in it.  If it is not, the whole text is neither a number nor a word for a weight, and
`italic` is taken off its end.  No other qualifier is.

So it makes no difference for `italic` whether a space, a dash, an underscore or nothing at all
stands before it.  Behind anything but a blank `oblique` is lost, and the weight with it
(`ofText_append_qualifier`).
-/

namespace DesignTokens.FontStyle

variable {text word qualifier q : String} {entry : String × Nat}

/-! ## Qualifiers and their letters -/

/-- The words that say that letters are slanted. -/
def qualifiers : List String := ["italic", "oblique"]

theorem map_toLower_of_sameIgnoringCase (hq : q ∈ qualifiers)
    (h : Text.sameIgnoringCase word q) : word.toList.map Char.toLower = q.toList := by
  have hlowered : ∀ q ∈ qualifiers, Text.lower q = q := by decide
  rw [Text.sameIgnoringCase, beq_iff_eq, hlowered q hq] at h
  rw [← h, Text.toList_lower]

theorem isQualifier_iff : isQualifier word ↔ ∃ q ∈ qualifiers, Text.sameIgnoringCase word q := by
  simp [isQualifier, qualifiers]

theorem plain_of_mem_qualifiers :
    ∀ q ∈ qualifiers, q.toList ≠ [] ∧ q.toList.all FontWeight.isLetter := by decide

theorem letters_of_sameIgnoringCase (hq : q ∈ qualifiers) (h : Text.sameIgnoringCase word q) :
    FontWeight.letters word = q.toList :=
  FontWeight.lettersOf_of_map (map_toLower_of_sameIgnoringCase hq h)
    (plain_of_mem_qualifiers q hq).2

theorem isWord_of_isQualifier (h : isQualifier word) : Text.IsWord word := by
  obtain ⟨q, hq, hsame⟩ := isQualifier_iff.mp h
  have hlower := map_toLower_of_sameIgnoringCase hq hsame
  obtain ⟨hne, hplain⟩ := plain_of_mem_qualifiers q hq
  refine ⟨?_, ?_⟩
  · rintro rfl
    exact hne hlower.symm
  · intro c hc
    rw [← hlower] at hplain
    refine FontWeight.isBlank_of_isLetter ?_
    rw [← FontWeight.isLetter_toLower]
    exact List.all_eq_true.mp hplain c.toLower (List.mem_map_of_mem hc)

/-! ## Where a qualifier can stand -/

/-- In the letters of a weight and a qualifier there is no qualifier but that one. -/
theorem eq_of_qualifier_in_letters (hentry : entry ∈ FontWeight.words) (hq : q ∈ "" :: qualifiers)
    {found : String} (hfound : found ∈ qualifiers) {front back : List Char}
    (h : entry.1.toList ++ q.toList = front ++ (found.toList ++ back)) :
    front = entry.1.toList ∧ q = found ∧ back = [] := by
  have hplace : ∀ entry ∈ FontWeight.words, ∀ q ∈ "" :: qualifiers, ∀ found ∈ qualifiers,
      ∀ i ∈ List.range ((entry.1.toList ++ q.toList).length + 1),
        found.toList.isPrefixOf ((entry.1.toList ++ q.toList).drop i) →
          i = entry.1.toList.length ∧ q = found := by decide
  have hrange : front.length ∈ List.range ((entry.1.toList ++ q.toList).length + 1) := by
    rw [List.mem_range, h, List.length_append]
    omega
  obtain ⟨hlength, rfl⟩ := hplace entry hentry q hq found hfound front.length hrange (by
    rw [h, List.drop_left, List.isPrefixOf_iff_prefix]
    exact List.prefix_append _ _)
  obtain ⟨hfront, hback⟩ := List.append_inj h hlength.symm
  exact ⟨hfront.symm, rfl, by simpa using hback⟩

/-! ## The rest of a text with such letters -/

theorem letters_withoutQualifiers (text : String) : FontWeight.letters (withoutQualifiers text) =
    ((Text.words text).filter fun word => !isQualifier word).flatMap FontWeight.letters := by
  rw [FontWeight.letters_eq_flatMap_words, words_withoutQualifiers]

theorem eq_space_of_mem_withoutQualifiers (text : String) :
    ∀ c ∈ (withoutQualifiers text).toList, Text.isBlank c → c = ' ' :=
  fun _ hmem hblank => Text.eq_space_of_mem_join isWord_of_mem_filter hblank hmem

theorem letters_withoutQualifiers_of_not_qualified (h : isQualified text = false) :
    FontWeight.letters (withoutQualifiers text) = FontWeight.letters text := by
  have hall : ∀ word ∈ Text.words text, (!isQualifier word) = true := by
    simpa [isQualified] using h
  rw [letters_withoutQualifiers, List.filter_eq_self.mpr hall,
    ← FontWeight.letters_eq_flatMap_words]

/-- If one of its words is the qualifier, the letters of the others are those of the weight. -/
theorem letters_withoutQualifiers_of_qualified (hentry : entry ∈ FontWeight.words)
    (hq : q ∈ "" :: qualifiers) (hletters : FontWeight.letters text = entry.1.toList ++ q.toList)
    (h : isQualified text) :
    FontWeight.letters (withoutQualifiers text) = entry.1.toList ∧ q ≠ "" := by
  -- the first of the qualifiers
  obtain ⟨word, hword⟩ :=
    Option.isSome_iff_exists.mp (List.find?_isSome.mpr (List.any_eq_true.mp h))
  obtain ⟨hqualifier, front, back, hwords, hfront⟩ := List.find?_eq_some_iff_append.mp hword
  obtain ⟨found, hfound, hsame⟩ := isQualifier_iff.mp hqualifier
  rw [FontWeight.letters_eq_flatMap_words, hwords, List.flatMap_append, List.flatMap_cons,
    letters_of_sameIgnoringCase hfound hsame] at hletters
  obtain ⟨hfrontLetters, rfl, hbackLetters⟩ :=
    eq_of_qualifier_in_letters hentry hq hfound hletters.symm
  -- no other one stands behind it, for no letters are left
  have hback : ∀ word ∈ back, (!isQualifier word) = true := by
    intro word hmem
    rw [Bool.not_eq_true']
    refine Bool.eq_false_iff.mpr fun hother => ?_
    obtain ⟨other, hotherMem, hotherSame⟩ := isQualifier_iff.mp hother
    have hnone := List.flatMap_eq_nil_iff.mp hbackLetters word hmem
    rw [letters_of_sameIgnoringCase hotherMem hotherSame] at hnone
    exact (plain_of_mem_qualifiers other hotherMem).1 hnone
  refine ⟨?_, ?_⟩
  · rw [letters_withoutQualifiers, hwords, List.filter_append,
      List.filter_cons_of_neg (by simpa using hqualifier), List.filter_eq_self.mpr hfront,
      List.filter_eq_self.mpr hback, List.flatMap_append, hfrontLetters, hbackLetters,
      List.append_nil]
  · rintro rfl
    exact absurd hfound (by decide)

theorem plain_of_mem_words : ∀ entry ∈ FontWeight.words, entry.1 ≠ "" ∧
    FontWeight.letters entry.1 = entry.1.toList ∧ entry.1.toList.all FontWeight.isLetter := by
  decide

theorem withoutQualifiers_ne_empty
    (hletters : FontWeight.letters (withoutQualifiers text) ≠ []) :
    withoutQualifiers text ≠ "" := by
  intro hempty
  rw [hempty] at hletters
  exact hletters rfl

/-! ## The style of such a text -/

/-- The letters of a weight and a qualifier make a style with that weight if the qualifier is a
word, or else if it is `italic`. -/
theorem ofText_of_letters (hentry : entry ∈ FontWeight.words) (hq : q ∈ qualifiers)
    (hletters : FontWeight.letters text = entry.1.toList ++ q.toList) : ofText text =
      if isQualified text ∨ q = "italic" then ⟨some (.ofNat entry.2), true⟩ else ⟨none, false⟩ := by
  have hspaced := eq_space_of_mem_withoutQualifiers text
  obtain ⟨hne, hwordLetters, hplain⟩ := plain_of_mem_words entry hentry
  have hwordSpaced : ∀ c ∈ entry.1.toList, Text.isBlank c → c = ' ' := by
    intro c hc hblank
    rw [FontWeight.isBlank_of_isLetter (List.all_eq_true.mp hplain c hc)] at hblank
    cases hblank
  cases hqualified : isQualified text with
  | true =>
      -- the qualifier is a word of its own: taking it away leaves the letters of the weight
      obtain ⟨hrest, -⟩ := letters_withoutQualifiers_of_qualified hentry
        (List.mem_cons_of_mem _ hq) hletters hqualified
      have hnonempty : withoutQualifiers text ≠ "" := by
        refine withoutQualifiers_ne_empty ?_
        rw [hrest]
        simpa using hne
      rw [ofText_of_ne_empty hnonempty, ofRest,
        FontWeight.ofText?_of_mem_words hentry hspaced hrest, hqualified]
      simp
  | false =>
      -- the qualifier is fused to the weight, where only `italic` is taken off the end
      have hrest : FontWeight.letters (withoutQualifiers text) = (entry.1 ++ q).toList := by
        rw [letters_withoutQualifiers_of_not_qualified hqualified, hletters, String.toList_append]
      have hnonempty : withoutQualifiers text ≠ "" := by
        refine withoutQualifiers_ne_empty ?_
        rw [hrest]
        simp [hne]
      have hsquash : FontWeight.squash (withoutQualifiers text) = entry.1 ++ q := by
        rw [← String.toList_inj, FontWeight.toList_squash_of_spaced hspaced, hrest]
      rw [ofText_of_ne_empty hnonempty, ofRest,
        FontWeight.ofText?_of_qualified hentry hq hspaced hrest, hsquash, hqualified]
      by_cases hitalic : q = "italic"
      · have hstem : Text.dropEnd? (entry.1 ++ q) "italic" = some entry.1 :=
          Text.dropEnd?_eq_some_iff.mpr (by rw [hitalic])
        rw [hstem]
        simp [hne, hitalic, FontWeight.ofText?_of_mem_words hentry hwordSpaced hwordLetters]
      · have hnone : Text.dropEnd? (entry.1 ++ q) "italic" = none := by
          refine Option.eq_none_iff_forall_ne_some.mpr fun stem hstem => hitalic ?_
          have hsplit := congrArg String.toList (Text.dropEnd?_eq_some_iff.mp hstem)
          rw [String.toList_append, String.toList_append,
            ← List.append_nil "italic".toList] at hsplit
          exact (eq_of_qualifier_in_letters hentry (List.mem_cons_of_mem _ hq)
            List.mem_cons_self hsplit).2.1
        rw [hnone]
        simp [hitalic]

/-! ## A qualifier behind a weight -/

/-- What can stand between a weight and a qualifier besides blanks. -/
def separators : List String := ["", "-", "_"]

/-- Spaces and separators add no letters. -/
theorem letters_append_qualifier {separator : String}
    (hletters : FontWeight.letters text = entry.1.toList)
    (hseparator : separator ∈ " " :: separators) (hq : q ∈ qualifiers)
    (h : Text.sameIgnoringCase qualifier q) :
    FontWeight.letters (text ++ separator ++ qualifier) = entry.1.toList ++ q.toList := by
  have hnone : ∀ separator ∈ " " :: separators, FontWeight.letters separator = [] := by decide
  rw [FontWeight.letters_append, FontWeight.letters_append, hletters, hnone separator hseparator,
    letters_of_sameIgnoringCase hq h, List.append_nil]

private theorem isQualified_append_space (h : isQualifier qualifier) (text : String) :
    isQualified (text ++ " " ++ qualifier) := by
  rw [isQualified, Text.words_append_space, Text.words_of_isWord (isWord_of_isQualifier h),
    List.any_append]
  simp [h]

/-- Something with a qualifier at its end is another word. -/
theorem isQualifier_append (hne : text ≠ "") (h : Text.sameIgnoringCase qualifier "oblique") :
    isQualifier (text ++ qualifier) = false := by
  have hlength : ∀ q ∈ qualifiers, q.toList.length ≤ "oblique".toList.length := by decide
  refine Bool.eq_false_iff.mpr fun hqualifier => hne ?_
  obtain ⟨q, hq, hsame⟩ := isQualifier_iff.mp hqualifier
  have hlower := congrArg List.length (map_toLower_of_sameIgnoringCase hq hsame)
  have hlower' := congrArg List.length (map_toLower_of_sameIgnoringCase (by decide) h)
  have hbound := hlength q hq
  rw [List.length_map, String.toList_append, List.length_append] at hlower
  rw [List.length_map] at hlower'
  rw [← String.toList_eq_nil_iff, ← List.length_eq_zero_iff]
  omega

/-- A text with the letters of a weight has no qualifier. -/
theorem isQualified_of_letters (hentry : entry ∈ FontWeight.words)
    (hletters : FontWeight.letters text = entry.1.toList) : isQualified text = false := by
  refine Bool.eq_false_iff.mpr fun hqualified => ?_
  have hempty : FontWeight.letters text = entry.1.toList ++ "".toList := by
    rw [hletters]
    simp
  exact (letters_withoutQualifiers_of_qualified hentry List.mem_cons_self hempty hqualified).2 rfl

private theorem isWord_append {separator : String} (hseparator : separator ∈ separators)
    (h : isQualifier qualifier) : Text.IsWord (separator ++ qualifier) := by
  have hplain : ∀ separator ∈ separators, separator.toList.any Text.isBlank = false := by decide
  obtain ⟨hne, hunbroken⟩ := isWord_of_isQualifier h
  refine ⟨?_, ?_⟩
  · simp [hne]
  · rw [String.toList_append]
    refine List.forall_mem_append.mpr ⟨fun c hc => ?_, hunbroken⟩
    simpa using List.any_eq_false.mp (hplain separator hseparator) c hc

/-- Behind a weight `oblique` is a word of its own if a blank and nothing else stands before it. -/
theorem isQualified_append_oblique {separator : String} (hentry : entry ∈ FontWeight.words)
    (hletters : FontWeight.letters text = entry.1.toList) (hseparator : separator ∈ separators)
    (hoblique : Text.sameIgnoringCase qualifier "oblique") :
    isQualified (text ++ separator ++ qualifier) =
      (separator == "" && Text.endsInBlank text) := by
  have hqualifier : isQualifier qualifier := isQualifier_iff.mpr ⟨"oblique", by decide, hoblique⟩
  have hqualified := isQualified_of_letters hentry hletters
  have hword := isWord_append hseparator hqualifier
  rw [String.append_assoc]
  cases hend : Text.endsInBlank text with
  | true =>
      -- behind a blank the qualifier starts a word, which is one if nothing else is in front
      have hfused : isQualifier (separator ++ qualifier) = (separator == "") := by
        by_cases hempty : separator = ""
        · simp [hempty, hqualifier]
        · simp [hempty, isQualifier_append hempty hoblique]
      rw [isQualified, Text.words_append_of_endsInBlank hend hword, List.any_append, ← isQualified,
        hqualified]
      simp [hfused]
  | false =>
      have hne : text ≠ "" := by
        rintro rfl
        refine (plain_of_mem_words entry hentry).1 ?_
        rw [← String.toList_eq_nil_iff, ← hletters]
        rfl
      -- otherwise it only makes the last word longer
      obtain ⟨front, last, hlast, hwords, happend⟩ := Text.exists_words_append hne hend hword
      have hfused : isQualifier (last ++ (separator ++ qualifier)) = false := by
        rw [← String.append_assoc]
        exact isQualifier_append (by simp [hlast]) hoblique
      rw [isQualified, hwords, List.any_append, Bool.or_eq_false_iff] at hqualified
      rw [isQualified, happend, List.any_append, hqualified.1]
      simp [hfused]

/-- **A qualifier behind a weight.**  A text is no number and has a weight, so it is a word for that
weight, in whatever case and with whatever separators.  With a space and a qualifier behind it, it
is the style of slanted letters of that weight.  If the qualifier is `italic`, a dash, an underscore
or nothing at all instead of the space makes no difference.  If it is `oblique`, it is the same
style only if there is nothing in between and the text ends in a blank; else it is no style. -/
theorem ofText_append_qualifier {weight : Binary64}
    (hweight : FontWeight.ofText? text = some weight) (hword : numeral? (Text.trim text) = none)
    (hqualifier : isQualifier qualifier) :
    ofText (text ++ " " ++ qualifier) = ⟨some weight, true⟩ ∧
    ∀ separator ∈ ["", "-", "_"],
      (Text.sameIgnoringCase qualifier "italic" →
        ofText (text ++ separator ++ qualifier) = ofText (text ++ " " ++ qualifier)) ∧
      (Text.sameIgnoringCase qualifier "oblique" →
        ofText (text ++ separator ++ qualifier) =
          if separator = "" ∧ Text.endsInBlank text then ofText (text ++ " " ++ qualifier)
          else ⟨none, false⟩) := by
  obtain ⟨entry, hentry, hletters, rfl⟩ := FontWeight.exists_mem_words_of_ofText? hweight hword
  have hspace : ofText (text ++ " " ++ qualifier) = ⟨some (.ofNat entry.2), true⟩ := by
    obtain ⟨q, hq, hsame⟩ := isQualifier_iff.mp hqualifier
    rw [ofText_of_letters hentry hq (letters_append_qualifier hletters (by decide) hq hsame),
      if_pos (.inl (isQualified_append_space hqualifier text))]
  refine ⟨hspace, fun separator hseparator => ⟨?_, ?_⟩⟩
  · intro hitalic
    have hfused := letters_append_qualifier hletters (List.mem_cons_of_mem " " hseparator)
      (q := "italic") (by decide) hitalic
    rw [hspace, ofText_of_letters hentry (by decide) hfused, if_pos (.inr rfl)]
  · intro hoblique
    have hfused := letters_append_qualifier hletters (List.mem_cons_of_mem " " hseparator)
      (q := "oblique") (by decide) hoblique
    rw [hspace, ofText_of_letters hentry (by decide) hfused,
      isQualified_append_oblique hentry hletters hseparator hoblique]
    simp

theorem style_of_semiBoldItalic :
    FontWeight.ofText? " semi-BOLD" = some 600 ∧ numeral? (Text.trim " semi-BOLD") = none ∧
      isQualifier "ITALIC" ∧ ofText " semi-BOLD_ITALIC" = ⟨some 600, true⟩ := by
  have hweight : FontWeight.ofText? " semi-BOLD" = some 600 := by decide +kernel
  have hword : numeral? (Text.trim " semi-BOLD") = none := by decide +kernel
  have hqualifier : isQualifier "ITALIC" := by decide
  obtain ⟨hspace, hseparators⟩ := ofText_append_qualifier hweight hword hqualifier
  refine ⟨hweight, hword, hqualifier, ?_⟩
  exact ((hseparators "_" (by decide)).1 (by decide)).trans hspace

/-- Nothing stands between the weight and `Oblique`, and neither is found. -/
theorem style_of_boldOblique :
    FontWeight.ofText? "Bold" = some 700 ∧ numeral? (Text.trim "Bold") = none ∧
      isQualifier "Oblique" ∧ ofText ("Bold" ++ " " ++ "Oblique") = ⟨some 700, true⟩ ∧
      ofText ("Bold" ++ "" ++ "Oblique") = ⟨none, false⟩ := by decide +kernel

end DesignTokens.FontStyle
