import DesignTokens.Proofs.Ratio.Reasoning

/-!
# Which tokens are siblings

The font size beside a line height is sought by the stem of the whole path, while whether a token is
a line height is asked of the leaf only.  The two agree because an ending has no slash: it comes off
the leaf and leaves the parent as it is (`Text.leaf_append`, `Text.parent_append`).  To lower a path
neither makes nor removes a slash, so it makes no difference whether a path is lowered before or
after it is parted (`Text.lower_leaf`, `Text.lower_parent`).

So every line height has a stem, and two tokens share one exactly if, up to case, they have one
parent and one name before the endings (`Sibling.isBeside_iff`).
-/

namespace DesignTokens

/-! ## Parents and leaves -/

namespace Text

/-- The characters up to the last slash, which is the last of them. -/
def parentChars (path : List Char) : List Char := (path.reverse.dropWhile (· != '/')).reverse

/-- A path without its leaf. -/
def parent (path : String) : String := String.ofList (parentChars path.toList)

@[simp] theorem toList_parent (path : String) : (parent path).toList = parentChars path.toList := by
  simp [parent]

/-- The parent and the leaf make up the path. -/
theorem parent_append_leaf (path : String) : parent path ++ leaf path = path := by
  rw [← String.toList_inj, String.toList_append, toList_parent, toList_leaf, parentChars, leafChars,
    ← List.reverse_append, List.takeWhile_append_dropWhile, List.reverse_reverse]

/-- Only a slash is lowered to a slash. -/
theorem bne_slash_toLower : ((· != '/') ∘ Char.toLower) = (· != '/') := by
  funext c
  rw [Function.comp_apply, bne, toLower_beq (by decide), ← bne]

theorem lower_leaf (path : String) : lower (leaf path) = leaf (lower path) := by
  rw [← String.toList_inj, toList_lower, toList_leaf, toList_leaf, toList_lower, leafChars,
    leafChars, ← List.map_reverse, List.takeWhile_map, bne_slash_toLower, List.map_reverse]

theorem lower_parent (path : String) : lower (parent path) = parent (lower path) := by
  rw [← String.toList_inj, toList_lower, toList_parent, toList_parent, toList_lower, parentChars,
    parentChars, ← List.map_reverse, List.dropWhile_map, bne_slash_toLower, List.map_reverse]

variable {ending : String} (hslash : '/' ∉ ending.toList) (front : String)

include hslash

theorem leaf_append : leaf (front ++ ending) = leaf front ++ ending := by
  rw [← String.toList_inj, toList_leaf, String.toList_append, String.toList_append, toList_leaf,
    Sibling.leafChars_append hslash]

theorem parent_append : parent (front ++ ending) = parent front := by
  have hpassed : ∀ c ∈ ending.toList.reverse, (c != '/') = true := by
    intro c hc
    rw [bne_iff_ne]
    rintro rfl
    exact hslash (List.mem_reverse.mp hc)
  rw [← String.toList_inj, toList_parent, String.toList_append, toList_parent, parentChars,
    List.reverse_append, List.dropWhile_append_of_pos hpassed, parentChars]

end Text

/-! ## Stems -/

namespace Sibling

variable {token other : Token} {ending stem : String}

/-- What has an ending has a stem. -/
theorem exists_stem_of_endsWith {path : String} (h : Text.endsWith (Text.leaf path) ending) :
    ∃ stem, path = stem ++ ending := by
  rw [Text.endsWith, List.isSuffixOf_iff_suffix] at h
  obtain ⟨name, hname⟩ := h
  refine ⟨Text.parent path ++ String.ofList name, ?_⟩
  have hleaf : String.ofList name ++ ending = Text.leaf path := by
    rw [← String.toList_inj, String.toList_append, String.toList_ofList, hname]
  rw [String.append_assoc, hleaf, Text.parent_append_leaf]

/-- Two tokens are siblings exactly if, up to case, they have the same parent, and their leaves the
same name before the endings. -/
theorem isBeside_iff : IsBeside token other ↔
    Text.lower (Text.parent token.path) = Text.lower (Text.parent other.path) ∧
      ∃ name, Text.lower token.leaf = name ++ lineHeightEnding ∧
        Text.lower other.leaf = name ++ fontSizeEnding := by
  have hheight : '/' ∉ lineHeightEnding.toList := by decide
  have hsize : '/' ∉ fontSizeEnding.toList := by decide
  simp only [IsBeside, Token.leaf, Text.lower_parent, Text.lower_leaf]
  constructor
  · rintro ⟨stem, htoken, hother⟩
    rw [htoken, hother]
    exact ⟨by rw [Text.parent_append hheight, Text.parent_append hsize], Text.leaf stem,
      Text.leaf_append hheight stem, Text.leaf_append hsize stem⟩
  · rintro ⟨hparent, name, htoken, hother⟩
    refine ⟨Text.parent (Text.lower token.path) ++ name, ?_, ?_⟩
    · rw [String.append_assoc, ← htoken, Text.parent_append_leaf]
    · rw [String.append_assoc, ← hother, hparent, Text.parent_append_leaf]

/-- The bytes of a stem are those before the bytes of the ending. -/
theorem toByteArray_stem {path : String} (hpath : path = stem ++ ending) :
    stem.toByteArray = path.toByteArray.extract 0 (path.utf8ByteSize - ending.utf8ByteSize) := by
  have hsize : path.utf8ByteSize - ending.utf8ByteSize = stem.toByteArray.size := by
    rw [hpath, String.utf8ByteSize_append, Nat.add_sub_cancel, String.size_toByteArray]
  rw [hsize, hpath, String.toByteArray_append, ByteArray.extract_append_eq_left rfl]

/-- A file has a size for a stem exactly if some font size beside the line height has a number. -/
theorem isSome_fontSize?_iff {file : TokenFile}
    (hstem : Text.lower token.path = stem ++ lineHeightEnding) :
    (fontSize? file stem).isSome ↔
      ∃ other ∈ file.tokens, IsBeside token other ∧ other.value.float?.isSome := by
  rw [fontSize?, List.findSome?_isSome_iff]
  simp only [List.mem_reverse, Option.isSome_iff_exists, sizeFor?_eq_some_iff,
    isBeside_iff_of_stem hstem, exists_and_left]

/-- **Which sizes go with a line height.**  The leaf of a token ends like a line height, whatever
its case.  Then its lowered path has a stem, which is also cut off by counting bytes.  A size is
found for it in a file exactly if the file has a token with a number whose lowered path has the
ending of a font size in place of that of the line height, and of several such tokens the last one
counts.  A ratio is given only if this size is positive, and it is then the quotient in thousandths.
No token with another parent or with another name before the ending is such a token. -/
theorem lineHeight_finds_last_size (file : TokenFile)
    (hleaf : Text.endsWith (Text.lower token.leaf) lineHeightEnding) :
    ∃ stem, stem? lineHeightEnding token.path = some stem ∧
      Text.lower token.path = stem ++ lineHeightEnding ∧
      stem.toByteArray = (Text.lower token.path).toByteArray.extract 0
        ((Text.lower token.path).utf8ByteSize - lineHeightEnding.utf8ByteSize) ∧
      (∀ other, IsBeside token other ↔ Text.lower other.path = stem ++ fontSizeEnding) ∧
      ((fontSize? file stem).isSome ↔
        ∃ other ∈ file.tokens, IsBeside token other ∧ other.value.float?.isSome) ∧
      (∀ size, fontSize? file stem = some size ↔
        ∃ before other after, file.tokens = before ++ other :: after ∧ IsBeside token other ∧
          other.value.float? = some size ∧
            ∀ later ∈ after, IsBeside token later → later.value.float? = none) ∧
      (∀ height, ratio? file token height = (fontSize? file stem).bind fun size =>
        if 0 < size then some (height / size).toThousandths else none) ∧
      ∀ other, IsBeside token other ↔
        Text.lower (Text.parent token.path) = Text.lower (Text.parent other.path) ∧
          ∃ name, Text.lower token.leaf = name ++ lineHeightEnding ∧
            Text.lower other.leaf = name ++ fontSizeEnding := by
  rw [Token.leaf, Text.lower_leaf] at hleaf
  obtain ⟨stem, hstem⟩ := exists_stem_of_endsWith hleaf
  have hfound : stem? lineHeightEnding token.path = some stem :=
    (stem?_eq_some_iff (by decide)).mpr hstem
  refine ⟨stem, hfound, hstem, toByteArray_stem hstem, isBeside_iff_of_stem hstem,
    isSome_fontSize?_iff hstem, fun size => fontSize?_eq_some_iff hstem, ?_,
    fun other => isBeside_iff⟩
  intro height
  rw [ratio?, hfound]
  rfl

end Sibling

namespace Sample

/-- A line height, and font sizes under two parents and in another case. -/
def buttonFile : TokenFile :=
  ⟨.ofBrandBreakpoint "core" "large", "Button",
    [number "Button/Primary/labelLineHeight" 30, number "Button/Primary/labelFontSize" 15,
      number "Button/Primary/LABELFONTSIZE" 20, number "Button/Ghost/labelFontSize" 12]⟩

/-- The last size under the parent counts, and that under the other parent does not, though its leaf
is the same. -/
theorem labelLineHeight_finds_last_size :
    let token := number "Button/Primary/labelLineHeight" 30
    Text.endsWith (Text.lower token.leaf) Sibling.lineHeightEnding ∧
      Sibling.fontSize? buttonFile "button/primary/label" = some 20 ∧
      Sibling.ratio? buttonFile token 30 = some (3 / 2) ∧
      Sibling.IsBeside token (number "Button/Primary/LABELFONTSIZE" 20) ∧
      ¬ Sibling.IsBeside token (number "Button/Ghost/labelFontSize" 12) := by
  intro token
  have hleaf : Text.endsWith (Text.lower token.leaf) Sibling.lineHeightEnding := by decide +kernel
  obtain ⟨stem, hfound, -, -, hbeside, -, -, hratio, -⟩ :=
    Sibling.lineHeight_finds_last_size buttonFile hleaf
  obtain rfl : stem = "button/primary/label" :=
    Option.some.inj (hfound.symm.trans (by decide +kernel))
  have hsize : Sibling.fontSize? buttonFile "button/primary/label" = some 20 := by decide +kernel
  refine ⟨hleaf, hsize, ?_, (hbeside _).mpr (by decide +kernel), ?_⟩
  · rw [hratio, hsize]
    decide +kernel
  · rw [hbeside]
    decide +kernel

end Sample

end DesignTokens
