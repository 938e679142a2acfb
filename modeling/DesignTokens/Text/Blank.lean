/-!
# Blanks

Which characters separate words: the white space of the Unicode standard.  `trim` drops the blanks
at both ends of a text, `words` are its maximal runs of other characters.
-/

namespace DesignTokens.Text

/-- White space, as Unicode has it. -/
def isBlank (c : Char) : Bool :=
  let code := c.toNat
  (0x09 ≤ code && code ≤ 0x0D) || code == 0x20 || code == 0x85 || code == 0xA0 || code == 0x1680 ||
    (0x2000 ≤ code && code ≤ 0x200A) || code == 0x2028 || code == 0x2029 || code == 0x202F ||
    code == 0x205F || code == 0x3000

/-- A text without the blanks at its ends. -/
def trim (text : String) : String :=
  String.ofList ((text.toList.dropWhile isBlank).reverse.dropWhile isBlank).reverse

/-- The maximal runs without a blank, given the run that is under way. -/
def wordsFrom (run : List Char) : List Char → List (List Char)
  | [] => if run.isEmpty then [] else [run]
  | c :: rest =>
    if isBlank c then
      if run.isEmpty then wordsFrom [] rest else run :: wordsFrom [] rest
    else wordsFrom (run ++ [c]) rest

/-- The words of a text. -/
def words (text : String) : List String :=
  (wordsFrom [] text.toList).map String.ofList

end DesignTokens.Text
