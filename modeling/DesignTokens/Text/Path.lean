/-!
# Names and paths

Variables and styles carry slash-delimited paths; `leaf` is the last part of one.  Names are
compared without regard to the case of the letters `A` to `Z`, and no other letter has a case here.
-/

namespace DesignTokens.Text

/-- A text with the letters `A` to `Z` lowered. -/
def lower (text : String) : String := String.ofList (text.toList.map Char.toLower)

@[simp] theorem toList_lower (text : String) :
    (lower text).toList = text.toList.map Char.toLower := by
  simp [lower]

/-- Equality up to the case of the letters `A` to `Z`. -/
def sameIgnoringCase (text other : String) : Bool := lower text == lower other

/-- Whether the characters of `part` occur one after the other in a text. -/
def occursIn (part : List Char) : List Char → Bool
  | [] => part.isEmpty
  | c :: rest => part.isPrefixOf (c :: rest) || occursIn part rest

theorem occursIn_iff {part text : List Char} : occursIn part text ↔ part <:+: text := by
  induction text with
  | nil => simp [occursIn]
  | cons c rest ih =>
      rw [occursIn, Bool.or_eq_true, ih, List.isPrefixOf_iff_prefix, List.infix_cons_iff]

/-- Whether `part` occurs in a text. -/
def contains (text part : String) : Bool := occursIn part.toList text.toList

theorem contains_iff {text part : String} :
    contains text part ↔ part.toList <:+: text.toList := occursIn_iff

/-- Whether a text begins with `start`. -/
def startsWith (text start : String) : Bool := start.toList.isPrefixOf text.toList

theorem startsWith_iff {text start : String} :
    startsWith text start ↔ ∃ rest, text = start ++ rest := by
  rw [startsWith, List.isPrefixOf_iff_prefix]
  constructor
  · rintro ⟨rest, hrest⟩
    exact ⟨String.ofList rest, by rw [← String.toList_inj, ← hrest]; simp⟩
  · rintro ⟨rest, rfl⟩
    exact ⟨rest.toList, by simp⟩

/-- Whether a text ends with `ending`. -/
def endsWith (text ending : String) : Bool := ending.toList.isSuffixOf text.toList

/-- A text without `start`, if it begins so. -/
def dropStart? (text start : String) : Option String :=
  (start.toList.isPrefixOf? text.toList).map String.ofList

/-- A text without `ending`, if it ends so. -/
def dropEnd? (text ending : String) : Option String :=
  (ending.toList.isSuffixOf? text.toList).map String.ofList

/-- The characters after the last slash. -/
def leafChars (path : List Char) : List Char :=
  (path.reverse.takeWhile (· != '/')).reverse

/-- The last part of a path. -/
def leaf (path : String) : String := String.ofList (leafChars path.toList)

@[simp] theorem toList_leaf (path : String) : (leaf path).toList = leafChars path.toList := by
  simp [leaf]

/-- A name inside a message. -/
def quote (name : String) : String := "'" ++ name ++ "'"

/-- The first part of a path that has more than one. -/
def firstOfMany? (path : String) : Option String :=
  if path.toList.contains '/' then some (String.ofList (path.toList.takeWhile (· != '/'))) else none

end DesignTokens.Text
