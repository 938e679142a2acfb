import DesignTokens.Collection
import DesignTokens.Proofs.Text.Path

/-!
# What collections are called

By convention a collection is named for what it is, as `BrandColorMapping` is, or `_Sizes`.  The
conventions are words in an order, and the first one that a name mentions says of what kind the
collection is (`conventional`).

Names of brand mappings need not be written out for `ofName`: a brand and, anywhere else in the
name, a color, a token or a mapping are enough for it (`SuggestsMapping`).  That is the only
difference, so where the two part, a collection is taken for a brand mapping
(`ofName_eq_conventional_iff`).  They part if the words of a mapping do not stand together, as in
`Brand Color Mode`, or if a name has those of a token mapping and speaks of colors besides.
-/

namespace DesignTokens.CollectionKind

variable {name word : String}

/-! ## Words in names -/

/-- A word stands in a name, where letters and digits count and their case does not. -/
def Mentions (name word : String) : Prop :=
  word.toList <:+: (Text.lower name).toList.filter Char.isAlphanum

instance (name word : String) : Decidable (Mentions name word) :=
  inferInstanceAs (Decidable (_ <:+: _))

/-- What stands in a word stands in the names that mention the word. -/
theorem Mentions.part {part : String} (h : Mentions name word)
    (hpart : part.toList <:+: word.toList) : Mentions name part :=
  hpart.trans h

theorem toList_squash (name : String) :
    (squash name).toList = (Text.lower name).toList.filter Char.isAlphanum := by
  have hcase : Char.isAlphanum ∘ Char.toLower = Char.isAlphanum :=
    funext Text.isAlphanum_toLower
  rw [squash, String.toList_ofList, Text.toList_lower, List.filter_map, hcase]

private theorem contains_squash_iff : Text.contains (squash name) word ↔ Mentions name word := by
  rw [Text.contains_iff, toList_squash, Mentions]

private theorem startsWith_underscore_iff :
    Text.startsWith name "_" ↔ name.toList.head? = some '_' := by
  have hword : "_".toList = ['_'] := rfl
  rw [Text.startsWith, hword, List.isPrefixOf_iff_prefix, List.singleton_prefix_iff_head?_eq_some]

/-! ## Conventions -/

/-- A name begins with an underscore or mentions primitives. -/
def SuggestsPrimitive (name : String) : Prop :=
  name.toList.head? = some '_' ∨ Mentions name "primitive"

instance (name : String) : Decidable (SuggestsPrimitive name) :=
  inferInstanceAs (Decidable (_ ∨ _))

def mappingNames : List (String × CollectionKind) :=
  [("brandtokenmapping", .brandMapping .breakpoint),
    ("brandcolormapping", .brandMapping .colorMode)]

def layerNames : List (String × CollectionKind) :=
  [("colormode", .semantic .colorMode), ("breakpoint", .semantic .breakpoint),
    ("density", .density)]

/-- What the first of some words says that a name mentions.  A name without any is that of a
component. -/
def firstMentioned (name : String) : List (String × CollectionKind) → CollectionKind
  | [] => .component
  | (word, kind) :: rest => if Mentions name word then kind else firstMentioned name rest

/-- The kind of a collection that is named by convention. -/
def conventional (name : String) : CollectionKind :=
  if SuggestsPrimitive name then .primitive
  else firstMentioned name (mappingNames ++ layerNames)

theorem conventional_eq (hprimitive : ¬ SuggestsPrimitive name) : conventional name =
    if Mentions name "brandtokenmapping" then .brandMapping .breakpoint
    else if Mentions name "brandcolormapping" then .brandMapping .colorMode
    else firstMentioned name layerNames := by
  rw [conventional, if_neg hprimitive]
  rfl

/-- A name without the words for a mapping is by convention not that of one. -/
theorem firstMentioned_layerNames_ne (name : String) (axis : Axis) :
    firstMentioned name layerNames ≠ .brandMapping axis := by
  simp only [firstMentioned, layerNames]
  split_ifs <;> exact nofun

/-! ## Lenient reading -/

/-- A name that is not that of primitives speaks of a brand and of what brands may map. -/
def SuggestsMapping (name : String) : Prop :=
  ¬ SuggestsPrimitive name ∧ Mentions name "brand" ∧
    (Mentions name "color" ∨ Mentions name "token" ∨ Mentions name "mapping")

instance (name : String) : Decidable (SuggestsMapping name) :=
  inferInstanceAs (Decidable (_ ∧ _ ∧ _))

/-- The axis of a mapping, which is about colors only if its name speaks of them. -/
def suggestedAxis (name : String) : Axis :=
  if Mentions name "color" then .colorMode else .breakpoint

/-- A name has the words for a token mapping and speaks of no colors, or it has those for a color
mapping and not the others. -/
def IsMappingName (name : String) : Prop :=
  Mentions name "brandtokenmapping" ∧ ¬ Mentions name "color" ∨
    Mentions name "brandcolormapping" ∧ ¬ Mentions name "brandtokenmapping"

instance (name : String) : Decidable (IsMappingName name) :=
  inferInstanceAs (Decidable (_ ∨ _))

theorem ofName_eq (name : String) : ofName name =
    if SuggestsPrimitive name then .primitive
    else if Mentions name "brand" ∧ Mentions name "color" then .brandMapping .colorMode
    else if Mentions name "brand" ∧ (Mentions name "token" ∨ Mentions name "mapping") then
      .brandMapping .breakpoint
    else firstMentioned name layerNames := by
  simp only [ofName, SuggestsPrimitive, Bool.or_eq_true, Bool.and_eq_true, contains_squash_iff,
    startsWith_underscore_iff]
  rfl

private theorem ofName_of_suggestsMapping (h : SuggestsMapping name) :
    ofName name = .brandMapping (suggestedAxis name) := by
  obtain ⟨hprimitive, hbrand, hwords⟩ := h
  rw [ofName_eq, if_neg hprimitive, suggestedAxis]
  by_cases hcolor : Mentions name "color"
  · rw [if_pos ⟨hbrand, hcolor⟩, if_pos hcolor]
  · rw [if_neg fun h => hcolor h.2, if_pos ⟨hbrand, hwords.resolve_left hcolor⟩, if_neg hcolor]

/-- The words for a mapping suggest one. -/
theorem not_mentions_of_not_suggestsMapping (hprimitive : ¬ SuggestsPrimitive name)
    (h : ¬ SuggestsMapping name) :
    ¬ Mentions name "brandtokenmapping" ∧ ¬ Mentions name "brandcolormapping" := by
  refine ⟨fun hword => h ⟨hprimitive, hword.part ?_, .inr (.inl (hword.part ?_))⟩,
    fun hword => h ⟨hprimitive, hword.part ?_, .inl (hword.part ?_)⟩⟩ <;> decide

private theorem ofName_of_not_suggestsMapping (h : ¬ SuggestsMapping name) :
    ofName name = conventional name := by
  by_cases hprimitive : SuggestsPrimitive name
  · rw [ofName_eq, conventional, if_pos hprimitive, if_pos hprimitive]
  · have hcolor : ¬ (Mentions name "brand" ∧ Mentions name "color") :=
      fun ⟨hbrand, hcolor⟩ => h ⟨hprimitive, hbrand, .inl hcolor⟩
    have hother : ¬ (Mentions name "brand" ∧ (Mentions name "token" ∨ Mentions name "mapping")) :=
      fun ⟨hbrand, hother⟩ => h ⟨hprimitive, hbrand, .inr hother⟩
    obtain ⟨htokens, hcolors⟩ := not_mentions_of_not_suggestsMapping hprimitive h
    rw [ofName_eq, if_neg hprimitive, if_neg hcolor, if_neg hother, conventional_eq hprimitive,
      if_neg htokens, if_neg hcolors]

/-- By convention a mapping of the axis that is suggested is one whose name is written out. -/
theorem conventional_eq_suggested_iff (hprimitive : ¬ SuggestsPrimitive name) :
    conventional name = .brandMapping (suggestedAxis name) ↔ IsMappingName name := by
  rw [conventional_eq hprimitive, suggestedAxis, IsMappingName]
  by_cases htokens : Mentions name "brandtokenmapping"
  · by_cases hcolor : Mentions name "color" <;> simp [htokens, hcolor]
  · by_cases hcolors : Mentions name "brandcolormapping"
    · have hcolor : Mentions name "color" := hcolors.part (by decide)
      simp [htokens, hcolors, hcolor]
    · simp [htokens, hcolors, firstMentioned_layerNames_ne]

/-- **Kinds by name.**  A name that suggests a brand mapping is read as that of one, and all others
are read by convention.  So a name is read by convention exactly if it suggests no mapping or is
written like the mapping that it suggests. -/
theorem ofName_eq_conventional_iff (name : String) :
    ofName name = (if SuggestsMapping name then .brandMapping (suggestedAxis name)
      else conventional name) ∧
    (ofName name = conventional name ↔ (SuggestsMapping name → IsMappingName name)) := by
  by_cases h : SuggestsMapping name
  · rw [if_pos h, ofName_of_suggestsMapping h]
    refine ⟨rfl, ?_, ?_⟩
    · intro hsame _
      exact (conventional_eq_suggested_iff h.1).mp hsame.symm
    · intro hname
      exact ((conventional_eq_suggested_iff h.1).mpr (hname h)).symm
  · rw [if_neg h, ofName_of_not_suggestsMapping h]
    exact ⟨rfl, fun _ hsuggests => absurd hsuggests h, fun _ => rfl⟩

/-- A color mode of the brands is taken for a mapping of their colors. -/
theorem ofName_brandColorMode :
    ofName "Brand Color Mode" = .brandMapping .colorMode ∧
      conventional "Brand Color Mode" = .semantic .colorMode ∧
      ¬ ∀ name, ofName name = conventional name := by
  have hread : ofName "Brand Color Mode" = .brandMapping .colorMode := by decide
  have hmeant : conventional "Brand Color Mode" = .semantic .colorMode := by decide
  refine ⟨hread, hmeant, fun hall => ?_⟩
  have hsame := hall "Brand Color Mode"
  rw [hread, hmeant] at hsame
  cases hsame

end DesignTokens.CollectionKind
