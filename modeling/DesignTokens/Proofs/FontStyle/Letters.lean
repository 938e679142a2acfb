import DesignTokens.FontStyle
import DesignTokens.Proofs.Number.Numeral
import DesignTokens.Proofs.Text.Words

/-!
# The letters of a weight

What is left of a text without blanks and separators, lowered, are its letters.  They do not change
when the text is trimmed, and they are those of its words, one word after the other
(`letters_eq_flatMap_words`).

A text is no numeral if its letters have no digit and are not one of a few words
(`numeral?_eq_none_of_letters`).  The words for weights are of this kind, so every text that has the
letters of one has its weight, unless there is a blank among them that is no space
(`ofText?_eq_of_letters`).
-/

namespace DesignTokens.FontWeight

variable {text : String} {chars body : List Char} {weight : Binary64}

@[simp] theorem isSeparator_toLower (c : Char) : isSeparator c.toLower = isSeparator c := by
  rw [isSeparator, Text.toLower_beq (by decide), Text.toLower_beq (by decide),
    Text.toLower_beq (by decide), isSeparator]

/-- Whether a character is no blank and no separator. -/
def isLetter (c : Char) : Bool := !Text.isBlank c && !isSeparator c

theorem isBlank_of_isLetter {c : Char} (h : isLetter c) : Text.isBlank c = false := by
  rw [isLetter, Bool.and_eq_true, Bool.not_eq_true'] at h
  exact h.1

@[simp] theorem isLetter_toLower (c : Char) : isLetter c.toLower = isLetter c := by
  rw [isLetter, Text.isBlank_toLower, isSeparator_toLower, isLetter]

/-- The letters among some characters, lowered. -/
def lettersOf (chars : List Char) : List Char := (chars.filter isLetter).map Char.toLower

/-- The letters of a text, with digits and signs among them. -/
def letters (text : String) : List Char := lettersOf text.toList

/-! ## Letters of parts -/

theorem lettersOf_append (front back : List Char) :
    lettersOf (front ++ back) = lettersOf front ++ lettersOf back := by
  rw [lettersOf, List.filter_append, List.map_append, lettersOf, lettersOf]

theorem letters_append (text other : String) :
    letters (text ++ other) = letters text ++ letters other := by
  rw [letters, String.toList_append, lettersOf_append, letters, letters]

theorem lettersOf_reverse (chars : List Char) :
    lettersOf chars.reverse = (lettersOf chars).reverse := by
  rw [lettersOf, List.filter_reverse, List.map_reverse, lettersOf]

theorem lettersOf_dropWhile (chars : List Char) :
    lettersOf (chars.dropWhile Text.isBlank) = lettersOf chars := by
  induction chars with
  | nil => rfl
  | cons c rest ih =>
      rw [List.dropWhile_cons]
      split
      · next hblank =>
        rw [ih]
        simp [lettersOf, isLetter, hblank]
      · rfl

/-- The letters of a text are found inside of the blanks at its ends. -/
@[simp] theorem letters_trim (text : String) : letters (Text.trim text) = letters text := by
  rw [letters, Text.trim, String.toList_ofList, lettersOf_reverse, lettersOf_dropWhile,
    lettersOf_reverse, List.reverse_reverse, lettersOf_dropWhile, letters]

/-- The letters of a text are those of its words. -/
theorem letters_eq_flatMap_words (text : String) :
    letters text = (Text.words text).flatMap letters := by
  have hflat : ∀ parts : List String,
      lettersOf (parts.flatMap String.toList) = parts.flatMap letters := by
    intro parts
    induction parts with
    | nil => rfl
    | cons word rest ih =>
        rw [List.flatMap_cons, lettersOf_append, ih, List.flatMap_cons, letters]
  rw [← hflat, Text.flatMap_words, letters, lettersOf, lettersOf, List.filter_filter]
  congr 1
  refine List.filter_congr fun c _ => ?_
  rw [isLetter]
  cases Text.isBlank c <;> simp

/-- Characters that are lowered to a word are its letters. -/
theorem lettersOf_of_map {word : List Char} (h : chars.map Char.toLower = word)
    (hword : word.all isLetter) : lettersOf chars = word := by
  rw [lettersOf, List.filter_eq_self.mpr, h]
  intro c hc
  rw [← isLetter_toLower]
  exact List.all_eq_true.mp hword c.toLower (h ▸ List.mem_map_of_mem hc)

/-! ## Letters of a squashed text -/

theorem toList_squash (text : String) :
    (squash text).toList = (text.toList.filter fun c => !isSeparator c).map Char.toLower := by
  rw [squash, String.toList_ofList]

/-- A squashed text may still have blanks, and other than that it has the letters of the text. -/
theorem filter_squash (text : String) :
    (squash text).toList.filter (fun c => !Text.isBlank c) = letters text := by
  have hletter : isLetter = fun c => !Text.isBlank c && !isSeparator c := rfl
  rw [toList_squash, List.filter_map, List.filter_filter, letters, lettersOf, hletter]
  simp

/-- Spaces are the only blanks that are squashed. -/
theorem toList_squash_of_spaced (hspaced : ∀ c ∈ text.toList, Text.isBlank c → c = ' ') :
    (squash text).toList = letters text := by
  rw [toList_squash, letters, lettersOf]
  congr 1
  refine List.filter_congr fun c hc => ?_
  rw [isLetter]
  cases hblank : Text.isBlank c with
  | false => simp
  | true =>
      obtain rfl := hspaced c hc hblank
      rfl

private theorem mem_of_mem_trim {c : Char} (h : c ∈ (Text.trim text).toList) : c ∈ text.toList := by
  rw [Text.trim, String.toList_ofList, List.mem_reverse] at h
  exact (List.dropWhile_sublist _).mem (List.mem_reverse.mp ((List.dropWhile_sublist _).mem h))

private theorem squash_trim_of_spaced (hspaced : ∀ c ∈ text.toList, Text.isBlank c → c = ' ') :
    squash (Text.trim text) = String.ofList (letters text) := by
  rw [← String.toList_inj, String.toList_ofList, ← letters_trim,
    toList_squash_of_spaced fun c hc => hspaced c (mem_of_mem_trim hc)]

/-! ## Numerals -/

/-- The letters of numerals without a digit. -/
def numeralWords : List (List Char) :=
  ["inf", "infinity", "nan", "+inf", "+infinity", "+nan"].map String.toList

/-- Whether letters can be those of a numeral. -/
def mayBeNumeral (letters : List Char) : Bool :=
  letters.any Char.isDigit || numeralWords.contains letters

private theorem decimal?_eq_none_of_no_digit (h : ∀ c ∈ body, c.isDigit = false) :
    Numeral.decimal? body = none := by
  have hnone : ∀ chars : List Char, (∀ c ∈ chars, c.isDigit = false) →
      chars.takeWhile Char.isDigit = [] ∧ chars.dropWhile Char.isDigit = chars := by
    intro chars hchars
    cases chars with
    | nil => exact ⟨rfl, rfl⟩
    | cons c rest => simp [hchars c List.mem_cons_self]
  obtain ⟨hwhole, hrest⟩ := hnone body h
  rw [Numeral.decimal?, hwhole, hrest]
  split
  next fraction rest hfraction =>
  split at hfraction
  · next tail =>
    obtain ⟨rfl, -⟩ := Prod.mk.inj hfraction
    have htail := (hnone tail fun c hc => h c (List.mem_cons_of_mem _ hc)).1
    simp [htail]
  · obtain ⟨rfl, -⟩ := Prod.mk.inj hfraction
    simp

private theorem lettersOf_sign (chars : List Char) : ∃ sign ∈ [[], ['+']],
    lettersOf chars = sign ++ lettersOf (Numeral.sign chars).2 := by
  unfold Numeral.sign
  split
  · exact ⟨[], by simp, rfl⟩
  · exact ⟨['+'], by simp, rfl⟩
  · exact ⟨[], by simp, rfl⟩

private theorem mem_lettersOf_of_isDigit {c : Char} (hc : c ∈ chars) (hdigit : c.isDigit) :
    c.toLower ∈ lettersOf chars := by
  have hseparator : isSeparator c = false := by
    simp only [isSeparator, Bool.or_eq_false_iff, beq_eq_false_iff_ne]
    refine ⟨⟨?_, ?_⟩, ?_⟩
    all_goals
      rintro rfl
      exact absurd hdigit (by decide)
  refine List.mem_map_of_mem (List.mem_filter.mpr ⟨hc, ?_⟩)
  rw [isLetter, Text.isBlank_of_isDigit hdigit, hseparator]
  rfl

/-- What has the letters of no numeral is none. -/
theorem numeral?_eq_none_of_letters (h : mayBeNumeral (letters text) = false) :
    numeral? text = none := by
  obtain ⟨hdigits, hwords⟩ := Bool.or_eq_false_iff.mp h
  obtain ⟨mark, hmark, hletters⟩ := lettersOf_sign text.toList
  rw [letters, hletters] at hdigits hwords
  obtain ⟨⟨negative, body⟩, hsign⟩ : ∃ signed, Numeral.sign text.toList = signed := ⟨_, rfl⟩
  rw [hsign] at hdigits hwords
  have hbody : ∀ c ∈ body, c.isDigit = false := by
    intro c hc
    refine Bool.eq_false_iff.mpr fun hdigit => ?_
    have hmem := List.mem_append_right mark (mem_lettersOf_of_isDigit hc hdigit)
    have hlower := List.any_eq_false.mp hdigits _ hmem
    rw [Text.isDigit_toLower] at hlower
    exact hlower hdigit
  -- a word for a number would be among the letters
  have hword : String.ofList (body.map Char.toLower) ∉ Numeral.words := by
    intro hword
    have hplain : ∀ word ∈ Numeral.words, word.toList.all isLetter := by decide
    have hknown : ∀ mark ∈ [[], ['+']], ∀ word ∈ Numeral.words,
        numeralWords.contains (mark ++ word.toList) = true := by decide
    have hlower : body.map Char.toLower =
        (String.ofList (body.map Char.toLower)).toList := String.toList_ofList.symm
    rw [lettersOf_of_map hlower (hplain _ hword), hknown mark hmark _ hword] at hwords
    cases hwords
  rw [numeral?_of_no_word hsign hword, decimal?_eq_none_of_no_digit hbody, Option.map_none]

/-! ## Words for weights -/

/-- No numeral has the letters of a word for a weight, also with a qualifier behind them. -/
theorem mayBeNumeral_of_mem_words : ∀ entry ∈ words, ∀ qualifier ∈ ["", "italic", "oblique"],
    mayBeNumeral (entry.1 ++ qualifier).toList = false := by decide

/-- A text with the letters of no numeral has the weight that its letters spell. -/
theorem ofText?_eq_of_letters (hspaced : ∀ c ∈ text.toList, Text.isBlank c → c = ' ')
    (hletters : mayBeNumeral (letters text) = false) : ofText? text =
      (words.find? fun entry => entry.1 == String.ofList (letters text)).map fun entry =>
        .ofNat entry.2 := by
  have hnumeral : numeral? (Text.trim text) = none := by
    refine numeral?_eq_none_of_letters ?_
    rwa [letters_trim]
  rw [ofText?, hnumeral, squash_trim_of_spaced hspaced]

theorem ofText?_of_mem_words {entry : String × Nat} (hentry : entry ∈ words)
    (hspaced : ∀ c ∈ text.toList, Text.isBlank c → c = ' ')
    (hletters : letters text = entry.1.toList) : ofText? text = some (.ofNat entry.2) := by
  have hfind : ∀ entry ∈ words, (words.find? fun other => other.1 == entry.1) = some entry := by
    decide
  have hnumeral := mayBeNumeral_of_mem_words entry hentry "" (by simp)
  rw [String.append_empty, ← hletters] at hnumeral
  rw [ofText?_eq_of_letters hspaced hnumeral, hletters, String.ofList_toList, hfind entry hentry]
  rfl

/-- No word for a weight has a qualifier at its end. -/
theorem ofText?_of_qualified {entry : String × Nat} {qualifier : String} (hentry : entry ∈ words)
    (hqualifier : qualifier ∈ ["italic", "oblique"])
    (hspaced : ∀ c ∈ text.toList, Text.isBlank c → c = ' ')
    (hletters : letters text = (entry.1 ++ qualifier).toList) : ofText? text = none := by
  have hfind : ∀ entry ∈ words, ∀ qualifier ∈ ["italic", "oblique"],
      (words.find? fun other => other.1 == entry.1 ++ qualifier) = none := by decide
  have hnumeral :=
    mayBeNumeral_of_mem_words entry hentry qualifier (List.mem_cons_of_mem _ hqualifier)
  rw [← hletters] at hnumeral
  rw [ofText?_eq_of_letters hspaced hnumeral, hletters, String.ofList_toList,
    hfind entry hentry qualifier hqualifier]
  rfl

/-- A text that has a weight and is no numeral has the letters of a word for it. -/
theorem exists_mem_words_of_ofText? (hweight : ofText? text = some weight)
    (hword : numeral? (Text.trim text) = none) :
    ∃ entry ∈ words, letters text = entry.1.toList ∧ .ofNat entry.2 = weight := by
  rw [ofText?, hword] at hweight
  obtain ⟨entry, hfound, hentry⟩ := Option.map_eq_some_iff.mp hweight
  have hmem := List.mem_of_find?_eq_some hfound
  have hsquash : entry.1 = squash (Text.trim text) := by simpa using List.find?_some hfound
  have hunbroken : ∀ entry ∈ words, entry.1.toList.filter (fun c => !Text.isBlank c) =
      entry.1.toList := by decide
  refine ⟨entry, hmem, ?_, hentry⟩
  rw [← letters_trim, ← filter_squash, ← hsquash, hunbroken entry hmem]

end DesignTokens.FontWeight
