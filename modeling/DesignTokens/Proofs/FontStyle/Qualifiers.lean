import DesignTokens.FontStyle
import DesignTokens.Proofs.Text.Words

/-!
# Qualifiers that stand alone

The words of a text for a font style that are qualifiers say that letters are slanted, and nothing
about the weight.  The others, joined by spaces, are a text without qualifiers, and its words are
the ones it was joined from (`words_withoutQualifiers`).  So the weight of the whole text is that of
the rest, wherever the qualifiers stand and however often one occurs, and letters may be slanted for
the rest as well, by a qualifier at its end that is no word of its own (`ofText_eq_of_qualifiers`).
-/

namespace DesignTokens.FontStyle

/-- Whether a word of a text is a qualifier. -/
def isQualified (text : String) : Bool := (Text.words text).any isQualifier

/-- The words of a text that are no qualifiers, joined by spaces. -/
def withoutQualifiers (text : String) : String :=
  String.intercalate " " ((Text.words text).filter fun word => !isQualifier word)

/-! ## The rest of a text -/

theorem isWord_of_mem_filter {text : String} :
    ∀ word ∈ (Text.words text).filter fun word => !isQualifier word, Text.IsWord word :=
  fun _ h => Text.isWord_of_mem_words (List.mem_filter.mp h).1

/-- The rest of a text has the words that are left, and no others. -/
theorem words_withoutQualifiers (text : String) : Text.words (withoutQualifiers text) =
    (Text.words text).filter fun word => !isQualifier word :=
  Text.words_join isWord_of_mem_filter

private theorem isQualified_withoutQualifiers (text : String) :
    isQualified (withoutQualifiers text) = false := by
  rw [isQualified, words_withoutQualifiers, List.any_filter]
  simp

private theorem withoutQualifiers_withoutQualifiers (text : String) :
    withoutQualifiers (withoutQualifiers text) = withoutQualifiers text := by
  rw [withoutQualifiers, words_withoutQualifiers, List.filter_filter]
  simp [withoutQualifiers]

/-! ## Parts of a style -/

/-- What a text without qualifiers says of a style. -/
def ofRest (rest : String) : FontStyle :=
  match FontWeight.ofText? rest with
  | some weight => ⟨some weight, false⟩
  | none => match Text.dropEnd? (FontWeight.squash rest) "italic" with
    | none => ⟨none, false⟩
    | some stem =>
      ⟨if stem.isEmpty then some FontWeight.regular else FontWeight.ofText? stem, true⟩

theorem ofText_of_empty {text : String} (h : withoutQualifiers text = "") :
    ofText text =
      ⟨if isQualified text then some FontWeight.regular else none, isQualified text⟩ := by
  have hempty : (withoutQualifiers text).isEmpty = true := String.isEmpty_iff.mpr h
  exact if_pos hempty

/-- A style is made of what the rest says and of whether there is a qualifier. -/
theorem ofText_of_ne_empty {text : String} (h : withoutQualifiers text ≠ "") :
    ofText text = { ofRest (withoutQualifiers text) with
      italic := isQualified text || (ofRest (withoutQualifiers text)).italic } := by
  have hempty : ¬ (withoutQualifiers text).isEmpty = true := mt String.isEmpty_iff.mp h
  refine (if_neg hempty).trans ?_
  rw [ofRest, isQualified, ← withoutQualifiers]
  cases FontWeight.ofText? (withoutQualifiers text) with
  | some weight => simp
  | none =>
      cases Text.dropEnd? (FontWeight.squash (withoutQualifiers text)) "italic" with
      | none => simp
      | some stem => simp

/-- **Qualifiers do not disturb the weight.**  If a text has words that are no qualifiers, it has
the weight of these words joined by spaces, and it is slanted exactly if one of its words is a
qualifier or the joined words are slanted themselves.  If it has no such words, a qualifier makes it
regular and slanted, and without one it says nothing. -/
theorem ofText_eq_of_qualifiers (text : String) :
    (withoutQualifiers text ≠ "" →
      (ofText text).weight = (ofText (withoutQualifiers text)).weight ∧
      ((ofText text).italic ↔
        (∃ word ∈ Text.words text, isQualifier word) ∨ (ofText (withoutQualifiers text)).italic)) ∧
    (withoutQualifiers text = "" →
      ((∃ word ∈ Text.words text, isQualifier word) → ofText text = ⟨some 400, true⟩) ∧
      ((∀ word ∈ Text.words text, ¬ isQualifier word) → ofText text = ⟨none, false⟩)) := by
  have hqualified : isQualified text ↔ ∃ word ∈ Text.words text, isQualifier word :=
    List.any_eq_true
  constructor
  · intro hrest
    have htwice := withoutQualifiers_withoutQualifiers text
    rw [← hqualified, ofText_of_ne_empty hrest, ofText_of_ne_empty (htwice.symm ▸ hrest), htwice,
      isQualified_withoutQualifiers]
    simp
  · intro hrest
    rw [ofText_of_empty hrest, ← hqualified]
    refine ⟨?_, ?_⟩
    · intro h
      rw [h]
      rfl
    · intro h
      have hnone : isQualified text = false := by
        simpa [isQualified] using h
      rw [hnone]
      rfl

/-- Qualifiers at both ends, and a blank that is no space. -/
theorem style_of_obliqueSemiBold :
    withoutQualifiers "Oblique Semi\u3000Bold ITALIC" = "Semi Bold" ∧
      (ofText "Oblique Semi\u3000Bold ITALIC").weight = some 600 ∧
      (ofText "Oblique Semi\u3000Bold ITALIC").italic ∧ ¬ (ofText "Semi Bold").italic := by
  have hrest : withoutQualifiers "Oblique Semi\u3000Bold ITALIC" = "Semi Bold" := by
    decide +kernel
  obtain ⟨hweight, hitalic⟩ :=
    (ofText_eq_of_qualifiers "Oblique Semi\u3000Bold ITALIC").1 (by rw [hrest]; decide)
  refine ⟨hrest, ?_, hitalic.mpr (.inl ⟨"ITALIC", by decide +kernel, by decide⟩), by decide +kernel⟩
  rw [hweight, hrest]
  decide +kernel

end DesignTokens.FontStyle
