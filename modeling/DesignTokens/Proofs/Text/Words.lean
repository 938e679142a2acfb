import DesignTokens.Text.Blank
import Mathlib.Data.List.DropRight

/-!
# Words

The words of a text are the pieces between its blanks, empty ones left out (`wordsFrom_eq`).  So a
word is a text with characters that are no blanks, and nothing else (`IsWord`), and a blank parts
the words before it from those behind it (`wordsFrom_append_cons`).  Words that are joined by spaces
are found again (`words_join`).  What follows a text begins a new word or goes on with the last one,
as the text ends in a blank or not (`words_append_of_endsInBlank`, `exists_words_append`).

Blanks at the ends of a text are no part of its words (`words_trim`), and if it has one word only,
they are all that stands around it (`trim_of_words_eq_singleton`).
-/

namespace DesignTokens.Text

variable {c : Char} {run front back : List Char} {text word : String} {parts : List String}

/-! ## Words as pieces -/

/-- What the search for words yields are the pieces of the run under way and the text behind it. -/
theorem wordsFrom_eq (hrun : ∀ c ∈ run, isBlank c = false) (chars : List Char) :
    wordsFrom run chars = ((run ++ chars).splitOnP isBlank).filter fun piece => !piece.isEmpty := by
  induction chars generalizing run with
  | nil =>
      rw [List.append_nil, List.splitOnP_eq_singleton hrun, wordsFrom]
      cases run <;> rfl
  | cons c rest ih =>
      rw [wordsFrom]
      split
      · next hblank =>
        -- the run ends here and the next one begins with nothing
        rw [List.splitOnP_append_cons_of_forall_mem hrun c hblank, ih (by simp)]
        cases run <;> rfl
      · next hblank =>
        rw [ih, List.append_assoc, List.singleton_append]
        exact List.forall_mem_append.mpr ⟨hrun, by simpa using hblank⟩

/-- A blank parts the words before it from those behind it. -/
theorem wordsFrom_append_cons (hblank : isBlank c) :
    wordsFrom [] (front ++ c :: back) = wordsFrom [] front ++ wordsFrom [] back := by
  have hnil : ∀ c ∈ ([] : List Char), isBlank c = false := by simp
  rw [wordsFrom_eq hnil, wordsFrom_eq hnil, wordsFrom_eq hnil, List.nil_append, List.nil_append,
    List.nil_append, List.splitOnP_append_cons front back hblank, List.filter_append]

theorem wordsFrom_of_unbroken (hrun : ∀ c ∈ run, isBlank c = false) (hne : run ≠ []) :
    wordsFrom [] run = [run] := by
  have hpieces := wordsFrom_eq hrun []
  rw [List.append_nil] at hpieces
  rw [wordsFrom_eq (by simp), List.nil_append, ← hpieces, wordsFrom, if_neg (by simpa using hne)]

theorem words_append_space (text other : String) :
    words (text ++ " " ++ other) = words text ++ words other := by
  rw [words, words, words, String.toList_append, String.toList_append, List.append_assoc,
    ← List.map_append]
  exact congrArg _ (wordsFrom_append_cons (c := ' ') (by decide))

/-! ## Words as texts -/

/-- A text that is one word. -/
structure IsWord (word : String) : Prop where
  ne_empty : word ≠ ""
  unbroken : ∀ c ∈ word.toList, isBlank c = false

theorem words_of_isWord (h : IsWord word) : words word = [word] := by
  have hne : word.toList ≠ [] := by
    rw [Ne, String.toList_eq_nil_iff]
    exact h.ne_empty
  rw [words, wordsFrom_of_unbroken h.unbroken hne, List.map_singleton, String.ofList_toList]

theorem isWord_of_mem_words (h : word ∈ words text) : IsWord word := by
  -- the run under way has no blank either
  have hpieces : ∀ run chars : List Char, (∀ c ∈ run, isBlank c = false) →
      ∀ piece ∈ wordsFrom run chars, piece ≠ [] ∧ ∀ c ∈ piece, isBlank c = false := by
    intro run chars hrun piece hpiece
    fun_induction wordsFrom run chars with
    | case1 run hempty => cases hpiece
    | case2 run hne =>
        obtain rfl := List.mem_singleton.mp hpiece
        exact ⟨by simpa using hne, hrun⟩
    | case3 run c rest hblank hempty ih => exact ih (by simp) hpiece
    | case4 run c rest hblank hne ih =>
        rcases List.mem_cons.mp hpiece with rfl | hpiece
        · exact ⟨by simpa using hne, hrun⟩
        · exact ih (by simp) hpiece
    | case5 run c rest hblank ih =>
        refine ih ?_ hpiece
        exact List.forall_mem_append.mpr ⟨hrun, by simpa using hblank⟩
  obtain ⟨piece, hpiece, rfl⟩ := List.mem_map.mp h
  obtain ⟨hne, hunbroken⟩ := hpieces [] text.toList (by simp) piece hpiece
  refine ⟨?_, ?_⟩
  · rwa [Ne, ← String.toList_eq_nil_iff, String.toList_ofList]
  · rwa [String.toList_ofList]

/-- All that the search leaves out is blanks. -/
theorem flatten_wordsFrom (run chars : List Char) :
    (wordsFrom run chars).flatten = run ++ chars.filter fun c => !isBlank c := by
  fun_induction wordsFrom run chars with
  | case1 run hempty => simpa using hempty.symm
  | case2 run hne => simp
  | case3 run c rest hblank hempty ih => simp_all
  | case4 run c rest hblank hne ih => simp [hblank, ih]
  | case5 run c rest hblank ih => simp [hblank, ih]

theorem flatMap_words (text : String) :
    (words text).flatMap String.toList = text.toList.filter fun c => !isBlank c := by
  have hmap : (wordsFrom [] text.toList).map (String.toList ∘ String.ofList) =
      wordsFrom [] text.toList := by
    simp [Function.comp_def]
  rw [words, List.flatMap_def, List.map_map, hmap, flatten_wordsFrom, List.nil_append]

/-! ## Joined words -/

/-- Words that are joined by spaces are found again. -/
theorem words_join (h : ∀ word ∈ parts, IsWord word) :
    words (String.intercalate " " parts) = parts := by
  induction parts with
  | nil =>
      rw [String.intercalate_nil]
      rfl
  | cons word rest ih =>
      obtain ⟨hword, hrest⟩ := List.forall_mem_cons.mp h
      cases rest with
      | nil => rw [String.intercalate_singleton, words_of_isWord hword]
      | cons other rest =>
          rw [String.intercalate_cons_cons, words_append_space, words_of_isWord hword, ih hrest,
            List.singleton_append]

/-- Nothing but spaces stands between joined words. -/
theorem eq_space_of_mem_join (h : ∀ word ∈ parts, IsWord word) (hblank : isBlank c)
    (hmem : c ∈ (String.intercalate " " parts).toList) : c = ' ' := by
  induction parts with
  | nil =>
      rw [String.intercalate_nil] at hmem
      cases hmem
  | cons word rest ih =>
      obtain ⟨hword, hrest⟩ := List.forall_mem_cons.mp h
      have hout : c ∉ word.toList := by
        intro hc
        rw [hword.unbroken c hc] at hblank
        cases hblank
      cases rest with
      | nil =>
          rw [String.intercalate_singleton] at hmem
          exact absurd hmem hout
      | cons other rest =>
          rw [String.intercalate_cons_cons, String.toList_append, String.toList_append,
            List.append_assoc] at hmem
          rcases List.mem_append.mp hmem with hmem | hmem
          · exact absurd hmem hout
          · rcases List.mem_append.mp hmem with hmem | hmem
            · exact List.mem_singleton.mp hmem
            · exact ih hrest hmem

/-! ## Texts that go on -/

/-- Whether a text ends in a blank. -/
def endsInBlank (text : String) : Bool := text.toList.getLast?.any isBlank

/-- Behind a blank a new word begins. -/
theorem words_append_of_endsInBlank (hend : endsInBlank text) (hword : IsWord word) :
    words (text ++ word) = words text ++ [word] := by
  obtain ⟨c, hlast, hblank⟩ := (Option.any_eq_true _ _).mp hend
  obtain ⟨front, hfront⟩ := List.getLast?_eq_some_iff.mp hlast
  have hafter := words_of_isWord hword
  rw [words] at hafter
  rw [words, words, String.toList_append, hfront, List.append_assoc, List.singleton_append,
    wordsFrom_append_cons hblank, wordsFrom_append_cons hblank, List.map_append, hafter,
    List.map_append]
  simp [wordsFrom]

/-- A text has no blank or a last one. -/
theorem exists_last_blank (chars : List Char) : (∀ c ∈ chars, isBlank c = false) ∨
    ∃ front c run, chars = front ++ c :: run ∧ isBlank c ∧ ∀ d ∈ run, isBlank d = false := by
  induction chars with
  | nil => exact .inl (by simp)
  | cons first rest ih =>
      rcases ih with hrest | ⟨front, c, run, rfl, hblank, hrun⟩
      · cases hfirst : isBlank first with
        | false => exact .inl (List.forall_mem_cons.mpr ⟨hfirst, hrest⟩)
        | true => exact .inr ⟨[], first, rest, rfl, hfirst, hrest⟩
      · exact .inr ⟨first :: front, c, run, rfl, hblank, hrun⟩

/-- What follows a text that does not end in a blank goes on with its last word. -/
theorem exists_words_append (hne : text ≠ "") (hend : endsInBlank text = false)
    (hword : IsWord word) : ∃ front last, last ≠ "" ∧ words text = front ++ [last] ∧
      words (text ++ word) = front ++ [last ++ word] := by
  have hrunWord : ∀ run : List Char, run ≠ [] → (∀ c ∈ run, isBlank c = false) →
      wordsFrom [] (run ++ word.toList) = [run ++ word.toList] := by
    intro run hrun hunbroken
    exact wordsFrom_of_unbroken (List.forall_mem_append.mpr ⟨hunbroken, hword.unbroken⟩)
      (by simp [hrun])
  -- the last word is all of the text, or the run behind its last blank
  rcases exists_last_blank text.toList with hunbroken | ⟨front, c, run, htext, hblank, hunbroken⟩
  · have hrun : text.toList ≠ [] := by simpa using hne
    refine ⟨[], text, hne, words_of_isWord ⟨hne, hunbroken⟩, ?_⟩
    rw [words, String.toList_append, hrunWord _ hrun hunbroken, ← String.toList_append]
    simp
  · have hrun : run ≠ [] := by
      rintro rfl
      rw [endsInBlank, htext, List.getLast?_concat] at hend
      exact absurd hblank (by simpa using hend)
    refine ⟨(wordsFrom [] front).map String.ofList, String.ofList run, by simpa using hrun, ?_, ?_⟩
    · rw [words, htext, wordsFrom_append_cons hblank, wordsFrom_of_unbroken hunbroken hrun]
      simp
    · rw [words, String.toList_append, htext, List.append_assoc, List.cons_append,
        wordsFrom_append_cons hblank, hrunWord _ hrun hunbroken]
      simp [String.ofList_append]

/-! ## Trimmed texts -/

theorem wordsFrom_blanks_append (h : ∀ c ∈ front, isBlank c) (chars : List Char) :
    wordsFrom [] (front ++ chars) = wordsFrom [] chars := by
  induction front with
  | nil => rfl
  | cons c rest ih =>
      obtain ⟨hblank, hrest⟩ := List.forall_mem_cons.mp h
      rw [List.cons_append, wordsFrom, if_pos hblank]
      exact ih hrest

private theorem wordsFrom_append_blanks (h : ∀ c ∈ back, isBlank c) (chars : List Char) :
    wordsFrom [] (chars ++ back) = wordsFrom [] chars := by
  cases back with
  | nil => rw [List.append_nil]
  | cons c rest =>
      obtain ⟨hblank, hrest⟩ := List.forall_mem_cons.mp h
      have hnone := wordsFrom_blanks_append hrest []
      rw [List.append_nil] at hnone
      rw [wordsFrom_append_cons hblank, hnone]
      exact List.append_nil _

theorem toList_trim (text : String) :
    (trim text).toList = (text.toList.dropWhile isBlank).rdropWhile isBlank := by
  rw [trim, String.toList_ofList, List.rdropWhile]

private theorem exists_toList_eq_trim (text : String) : ∃ front back : List Char,
    (∀ c ∈ front, isBlank c) ∧ (∀ c ∈ back, isBlank c) ∧
      text.toList = front ++ (trim text).toList ++ back := by
  refine ⟨text.toList.takeWhile isBlank, (text.toList.dropWhile isBlank).rtakeWhile isBlank,
    fun c => List.mem_takeWhile_imp, fun c => List.mem_rtakeWhile_imp, ?_⟩
  rw [toList_trim, List.append_assoc, List.rdropWhile_append_rtakeWhile,
    List.takeWhile_append_dropWhile]

/-- There is no blank to trim where a text was trimmed. -/
theorem trim_trim (text : String) : trim (trim text) = trim text := by
  have hhead := List.dropWhile_eq_self_iff.mp (List.dropWhile_idempotent isBlank text.toList)
  have hfront := List.rdropWhile_prefix isBlank (l := text.toList.dropWhile isBlank)
  rw [← String.toList_inj, toList_trim, toList_trim]
  rw [List.dropWhile_eq_self_iff.mpr, List.rdropWhile_idempotent]
  intro hpos
  rw [hfront.getElem hpos]
  exact hhead _

theorem words_trim (text : String) : words (trim text) = words text := by
  obtain ⟨front, back, hfront, hback, htext⟩ := exists_toList_eq_trim text
  rw [words, words, htext, wordsFrom_append_blanks hback, wordsFrom_blanks_append hfront]

theorem dropWhile_blanks_append (hfront : ∀ c ∈ front, isBlank c)
    (hrun : ∀ c ∈ run, isBlank c = false) (hne : run ≠ []) :
    (front ++ (run ++ back)).dropWhile isBlank = run ++ back := by
  obtain ⟨c, rest, rfl⟩ := List.exists_cons_of_ne_nil hne
  rw [List.dropWhile_append_of_pos hfront, List.cons_append,
    List.dropWhile_cons_of_neg (by simp [hrun c List.mem_cons_self])]

/-- A word comes out when the blanks around it are trimmed. -/
theorem trim_of_isWord (hfront : ∀ c ∈ front, isBlank c) (hback : ∀ c ∈ back, isBlank c)
    (hword : IsWord word) (htext : text.toList = front ++ (word.toList ++ back)) :
    trim text = word := by
  have hne : word.toList ≠ [] := by
    rw [Ne, String.toList_eq_nil_iff]
    exact hword.ne_empty
  have hreverse : ∀ c ∈ word.toList.reverse, isBlank c = false :=
    fun c hc => hword.unbroken c (List.mem_reverse.mp hc)
  have hend : (back.reverse ++ word.toList.reverse).dropWhile isBlank = word.toList.reverse := by
    rw [← List.append_nil word.toList.reverse]
    exact dropWhile_blanks_append (fun c hc => hback c (List.mem_reverse.mp hc)) hreverse
      (by simpa using hne)
  rw [trim, htext, dropWhile_blanks_append hfront hword.unbroken hne, List.reverse_append, hend,
    List.reverse_reverse, String.ofList_toList]

theorem trim_eq_self (hword : IsWord word) : trim word = word := by
  have hnone : ∀ c ∈ ([] : List Char), isBlank c := nofun
  exact trim_of_isWord hnone hnone hword (by simp)

/-- Around the only word of a text there are only blanks. -/
theorem trim_of_words_eq_singleton (h : words text = [word]) : trim text = word := by
  have haround : ∀ run chars : List Char, wordsFrom run chars = [word.toList] →
      ∃ front back, (∀ c ∈ front, isBlank c) ∧ (∀ c ∈ back, isBlank c) ∧
        run ++ chars = front ++ (word.toList ++ back) := by
    intro run chars hone
    fun_induction wordsFrom run chars with
    | case1 run hempty => cases hone
    | case2 run hne =>
        obtain rfl := (List.cons.inj hone).1
        exact ⟨[], [], by simp, by simp, by simp⟩
    | case3 run c rest hblank hempty ih =>
        obtain ⟨front, back, hfront, hback, heq⟩ := ih hone
        refine ⟨c :: front, back, List.forall_mem_cons.mpr ⟨hblank, hfront⟩, hback, ?_⟩
        rw [List.isEmpty_iff.mp hempty, List.cons_append, ← heq]
        rfl
    | case4 run c rest hblank hne ih =>
        -- the run is the word, and no other follows
        obtain ⟨rfl, hnone⟩ := List.cons.inj hone
        have hrest : rest.filter (fun c => !isBlank c) = [] := by
          have hflat := flatten_wordsFrom [] rest
          rwa [hnone, List.flatten_nil, List.nil_append, eq_comm] at hflat
        refine ⟨[], c :: rest, by simp, List.forall_mem_cons.mpr ⟨hblank, ?_⟩, rfl⟩
        simpa using hrest
    | case5 run c rest hblank ih =>
        obtain ⟨front, back, hfront, hback, heq⟩ := ih hone
        exact ⟨front, back, hfront, hback, by rw [← heq, List.append_assoc]; rfl⟩
  have hword : IsWord word := isWord_of_mem_words (h ▸ List.mem_singleton_self word)
  have hone : wordsFrom [] text.toList = [word.toList] := by
    obtain ⟨piece, hpiece, rfl⟩ := List.map_eq_singleton_iff.mp h
    rw [hpiece, String.toList_ofList]
  obtain ⟨front, back, hfront, hback, htext⟩ := haround [] text.toList hone
  exact trim_of_isWord hfront hback hword htext

end DesignTokens.Text
