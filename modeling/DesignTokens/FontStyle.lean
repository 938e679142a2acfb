import DesignTokens.Number.Numeral
import DesignTokens.Text.Blank
import DesignTokens.Text.Path

/-!
# Font weights and style names

The style of a font is one text such as `Semi Bold Italic`, in which a weight and a qualifier for
slanted letters are mixed.  `FontStyle.ofText` takes them apart.
-/

namespace DesignTokens

namespace FontWeight

/-- The words for weights, lowered and without separators. -/
def words : List (String × Nat) :=
  [("extrablack", 950), ("ultrablack", 950), ("extralight", 200), ("ultralight", 200),
    ("extrabold", 800), ("ultrabold", 800), ("semibold", 600), ("demibold", 600), ("hairline", 100),
    ("regular", 400), ("medium", 500), ("normal", 400), ("black", 900), ("heavy", 900),
    ("light", 300), ("ultra", 1000), ("thin", 100), ("book", 400), ("bold", 700)]

/-- The weight of fonts that say nothing of it. -/
def regular : Binary64 := 400

def isSeparator (c : Char) : Bool := c == ' ' || c == '-' || c == '_'

/-- A text lowered and without separators. -/
def squash (text : String) : String :=
  String.ofList ((text.toList.filter fun c => !isSeparator c).map Char.toLower)

/-- The weight that a text writes, as a number from 1 to 1000 or as a word. -/
def ofText? (text : String) : Option Binary64 :=
  let text := Text.trim text
  match numeral? text with
  | some x => if 1 ≤ x ∧ x ≤ 1000 then some x else none
  | none => (words.find? fun entry => entry.1 == squash text).map fun entry => .ofNat entry.2

end FontWeight

/-- A font style taken apart. -/
structure FontStyle where
  weight : Option Binary64
  italic : Bool
  deriving DecidableEq

namespace FontStyle

/-- Whether a word says that letters are slanted. -/
def isQualifier (word : String) : Bool :=
  Text.sameIgnoringCase word "italic" || Text.sameIgnoringCase word "oblique"

/-- The style that a text writes.  Qualifiers are taken out first; a qualifier alone leaves the
regular weight.  Where the rest is no weight, it may be one with `italic` at its end. -/
def ofText (text : String) : FontStyle :=
  let words := Text.words text
  let italic := words.any isQualifier
  let rest := String.intercalate " " (words.filter fun word => !isQualifier word)
  if rest.isEmpty then ⟨if italic then some FontWeight.regular else none, italic⟩
  else match FontWeight.ofText? rest with
    | some weight => ⟨some weight, italic⟩
    | none => match Text.dropEnd? (FontWeight.squash rest) "italic" with
      | none => ⟨none, italic⟩
      | some stem =>
        ⟨if stem.isEmpty then some FontWeight.regular else FontWeight.ofText? stem, true⟩

/-- The two words for the style of a font. -/
def slant (style : FontStyle) : String := if style.italic then "italic" else "normal"

end FontStyle

/-- Whether the name of a variable says that it holds a weight.  Only the leaf of its path counts.
-/
def namesWeight (path : String) : Bool := Text.contains (Text.lower (Text.leaf path)) "weight"

theorem namesWeight_iff {path : String} : namesWeight path ↔
    "weight".toList <:+: (Text.leaf path).toList.map Char.toLower := by
  rw [namesWeight, Text.contains_iff, Text.toList_lower]

end DesignTokens
