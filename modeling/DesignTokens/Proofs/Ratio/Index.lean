import DesignTokens.Proofs.Ratio.Agreement
import DesignTokens.Proofs.Table

/-!
# What is in the index of a cell

An index is put together one composite at a time: ratios are entered and taken out again, and
disputes grow.  Nevertheless it has a closed form (`RatioIndex.gathers_ofCell`).  Of the ratios that
composites give to a variable only the different ones matter, in the order in which they first
occur.  If there is one, the variable has it; if there are more, they are in dispute.  For a line
height the index has the ratio that all composites with it have in common, if there are any.

The proof adds one composite.  For the variable that it is bound to this is one more ratio, and what
the index has of it changes as the list of different ratios does (`Knows.addIdentity`); what it has
of any other variable stays (`Knows.addIdentity_of_ne`).  A variable stands in the order of the
disputes exactly if the table has its ratios, and stands there once, so that no dispute is left out
and none comes up empty (`Gathers.filter_disputes`).
-/

namespace DesignTokens.RatioIndex

variable {index : RatioIndex} {id other : VariableId} {found : List Binary64}

/-! ## One more ratio for a variable -/

/-- The index has of a variable what some different ratios amount to: the only one, or a dispute
between several, which stands in the order once. -/
structure Knows (index : RatioIndex) (id : VariableId) (found : List Binary64) : Prop where
  ratioOf?_eq : index.ratioOf? id = sole? found
  conflicted_eq : index.conflicted.get? id = if 2 ≤ found.length then some found else none
  count_eq : index.conflictOrder.count id = if 2 ≤ found.length then 1 else 0

namespace Knows

theorem empty : ({} : RatioIndex).Knows id [] := ⟨rfl, rfl, rfl⟩

/-- A variable without ratios gets one, a different one begins a dispute, and further ones are added
to the dispute. -/
theorem addIdentity (knows : index.Knows id found) (ratio : Binary64) :
    (index.addIdentity id ratio).Knows id (addDifferent ratio found) := by
  obtain ⟨hratio, hconflicted, hcount⟩ := knows
  rw [ratioOf?] at hratio
  unfold RatioIndex.addIdentity
  rcases found with _ | ⟨known, _ | ⟨second, rest⟩⟩
  case nil =>
    -- the first ratio for the variable
    have hnone : index.byIdentity.get? id = none := hratio
    have hfree : index.conflicted.get? id = none := hconflicted
    simp only [hfree, hnone]
    exact ⟨by simp [ratioOf?, Table.get?_insert, addDifferent, sole?], hfree, hcount⟩
  case cons.nil =>
    -- one ratio is known, which is confirmed or disputed
    have hsome : index.byIdentity.get? id = some known := hratio
    have hfree : index.conflicted.get? id = none := hconflicted
    simp only [hfree, hsome]
    by_cases hequal : known.numericallyEqual ratio
    · have hkept : addDifferent ratio [known] = [known] := by simp [addDifferent, hequal]
      rw [if_pos hequal, hkept]
      exact ⟨hratio, hfree, hcount⟩
    · have hadded : addDifferent ratio [known] = [known, ratio] := by simp [addDifferent, hequal]
      have hnowhere : index.conflictOrder.count id = 0 := hcount
      rw [if_neg hequal, hadded]
      constructor
      · simp [ratioOf?, Table.get?_erase, sole?]
      · simp [Table.get?_insert]
      · simp [hnowhere]
  case cons.cons =>
    -- the dispute is on already, and the variable does not come back
    have hmany : 2 ≤ (known :: second :: rest).length := by simp
    have hmore := Nat.le_trans hmany (length_le_addDifferent ratio _)
    rw [if_pos hmany] at hconflicted hcount
    rw [sole?_eq_none_of_two_le hmany] at hratio
    simp only [hconflicted]
    constructor
    · rw [sole?_eq_none_of_two_le hmore]
      exact hratio
    · simp [Table.get?_insert, hmore]
    · rw [if_pos hmore]
      exact hcount

/-- Other variables are left as they are. -/
theorem addIdentity_of_ne (knows : index.Knows id found) (hne : other ≠ id)
    (ratio : Binary64) : (index.addIdentity other ratio).Knows id found := by
  obtain ⟨hratio, hconflicted, hcount⟩ := knows
  rw [ratioOf?] at hratio
  have hne' : id ≠ other := Ne.symm hne
  unfold RatioIndex.addIdentity
  split
  · exact ⟨hratio, by rw [Table.get?_insert, if_neg hne', hconflicted], hcount⟩
  · split
    · exact ⟨by rw [ratioOf?, Table.get?_insert, if_neg hne', hratio], hconflicted, hcount⟩
    · split
      · exact ⟨hratio, hconflicted, hcount⟩
      · constructor
        · rw [ratioOf?, Table.get?_erase, if_neg hne', hratio]
        · rw [Table.get?_insert, if_neg hne', hconflicted]
        · rw [List.count_append, hcount]
          simp [hne]

theorem addValue (knows : index.Knows id found) (height ratio : Binary64) :
    (index.addValue height ratio).Knows id found :=
  ⟨knows.ratioOf?_eq, knows.conflicted_eq, knows.count_eq⟩

end Knows

/-! ## Disputes -/

/-- Variables that stand once in the order are found in the table as long as they are not taken
out. -/
theorem takeDisputes_eq_map {order : List VariableId} (hnodup : order.Nodup)
    (conflicted : Table VariableId (List Binary64)) :
    takeDisputes conflicted order =
      order.map fun id => ⟨id, (conflicted.get? id).getD []⟩ := by
  induction order generalizing conflicted with
  | nil => rfl
  | cons id rest ih =>
      obtain ⟨hfresh, hrest⟩ := List.nodup_cons.mp hnodup
      rw [takeDisputes, ih hrest, List.map_cons]
      refine congrArg _ (List.map_congr_left fun other hother => ?_)
      rw [Table.get?_erase, if_neg]
      rintro rfl
      exact hfresh hother

/-! ## One more ratio for a line height -/

private theorem byValue_addIdentity (index : RatioIndex) (id : VariableId) (ratio : Binary64) :
    (index.addIdentity id ratio).byValue = index.byValue := by
  unfold addIdentity
  split
  · rfl
  · split
    · rfl
    · split <;> rfl

/-- What an index holds for a line height with some ratios. -/
def slot (ratios : List Binary64) : Option (Option Binary64) :=
  if ratios = [] then none else some (agreed? ratios)

private theorem get?_addValue {key : Int} {ratios : List Binary64}
    (hslot : index.byValue.get? key = slot ratios) (height ratio : Binary64) :
    (index.addValue height ratio).byValue.get? key =
      slot (if key = hundredths height then ratios ++ [ratio] else ratios) := by
  rw [addValue, Table.get?_insert]
  split
  · next heq =>
    rw [← heq, hslot, slot]
    by_cases hempty : ratios = []
    · rw [if_pos hempty, hempty]
      rfl
    · rw [if_neg hempty, slot, if_neg (by simp), agreed?_concat hempty]
  · exact hslot

/-! ## All composites of a cell -/

/-- The ratio that a composite gives to a variable. -/
def ratioFor? (id : VariableId) (composite : TypographyToken) : Option Binary64 :=
  if composite.typography.lineHeight.boundTo? = some id then composite.typography.ratio? else none

/-- The ratio that a composite gives to a line height in hundredths. -/
def ratioAt? (key : Int) (composite : TypographyToken) : Option Binary64 :=
  if composite.typography.lineHeight.value.map hundredths = some key then
    composite.typography.ratio?
  else none

/-- The index has what some composites amount to. -/
structure Gathers (index : RatioIndex) (composites : List TypographyToken) : Prop where
  knows (id : VariableId) : index.Knows id (different (composites.filterMap (ratioFor? id)))
  get?_eq (key : Int) : index.byValue.get? key = slot (composites.filterMap (ratioAt? key))

/-- A composite with a ratio has a line height. -/
theorem exists_height_of_ratio? {t : Typography} {ratio : Binary64} (h : t.ratio? = some ratio) :
    ∃ height, t.lineHeight.value = some height := by
  obtain ⟨size, -, h⟩ := Option.bind_eq_some_iff.mp h
  obtain ⟨height, hheight, -⟩ := Option.bind_eq_some_iff.mp h
  exact ⟨height, hheight⟩

theorem Gathers.addComposite {composites : List TypographyToken}
    (gathers : index.Gathers composites) (composite : TypographyToken) :
    (index.addComposite composite.typography).Gathers (composites ++ [composite]) := by
  unfold RatioIndex.addComposite
  cases hratio : composite.typography.ratio? with
  | none =>
      have hfor : ∀ id, ratioFor? id composite = none := by simp [ratioFor?, hratio]
      have hat : ∀ key, ratioAt? key composite = none := by simp [ratioAt?, hratio]
      constructor
      · intro id
        simpa [hfor] using gathers.knows id
      · intro key
        simpa [hat] using gathers.get?_eq key
  | some ratio =>
      obtain ⟨height, hheight⟩ := exists_height_of_ratio? hratio
      rw [hheight]
      have hslot : ∀ key, (index.addValue height ratio).byValue.get? key =
          slot ((composites ++ [composite]).filterMap (ratioAt? key)) := by
        intro key
        rw [get?_addValue (gathers.get?_eq key), List.filterMap_append]
        by_cases hkey : key = hundredths height
        · simp [ratioAt?, hratio, hheight, hkey]
        · simp [ratioAt?, hheight, hkey, Ne.symm hkey]
      cases hbound : composite.typography.lineHeight.boundTo? with
      | none =>
          refine ⟨?_, hslot⟩
          intro id
          have hfor : ratioFor? id composite = none := by simp [ratioFor?, hbound]
          simpa [hfor] using (gathers.knows id).addValue height ratio
      | some target =>
          have hkept := byValue_addIdentity (index.addValue height ratio) target ratio
          refine ⟨?_, fun key => (congrArg (Table.get? · key) hkept).trans (hslot key)⟩
          intro id
          have hknows := (gathers.knows id).addValue height ratio
          by_cases hid : target = id
          -- the composite is bound to this very variable
          · have hfor : ratioFor? id composite = some ratio := by
              simp [ratioFor?, hbound, hid, hratio]
            simpa [hfor, different_concat, hid] using hknows.addIdentity ratio
          · have hfor : ratioFor? id composite = none := by simp [ratioFor?, hbound, hid]
            simpa [hfor] using hknows.addIdentity_of_ne hid ratio

/-- The dispute about a variable, if there are different ratios of it. -/
theorem Gathers.filter_disputes {composites : List TypographyToken}
    (gathers : index.Gathers composites) (id : VariableId) :
    (index.disputes.filter fun dispute => dispute.id == id) =
      if 2 ≤ (different (composites.filterMap (ratioFor? id))).length then
        [⟨id, different (composites.filterMap (ratioFor? id))⟩]
      else [] := by
  have hnodup : index.conflictOrder.Nodup := by
    refine List.nodup_iff_count_le_one.mpr fun id => ?_
    rw [(gathers.knows id).count_eq]
    split
    · exact Nat.le_refl 1
    · exact Nat.zero_le 1
  obtain ⟨-, hconflicted, hcount⟩ := gathers.knows id
  have hid : ((fun dispute : Dispute => dispute.id == id) ∘ fun id =>
      (⟨id, (index.conflicted.get? id).getD []⟩ : Dispute)) = (· == id) := rfl
  rw [disputes, takeDisputes_eq_map hnodup, List.filter_map, hid, List.filter_beq, hcount]
  split
  · next hmany => simp [hconflicted, hmany]
  · rfl

/-- The index of a cell has what the composites of the cell amount to. -/
theorem gathers_ofCell (tokens : TokenSet) (key : CellKey) :
    (ofCell tokens key).Gathers (tokens.compositesOf key) := by
  unfold ofCell
  generalize tokens.compositesOf key = composites
  induction composites using List.reverseRecOn with
  | nil => exact ⟨fun _ => .empty, fun _ => rfl⟩
  | append_singleton composites composite ih =>
      rw [List.foldl_append]
      exact ih.addComposite composite

/-! ## What the composites say -/

variable {tokens : TokenSet} {key : CellKey} {ratio : Binary64}

/-- A variable has the ratio that the composites bound to it have in common. -/
theorem ratioOf?_ofCell (tokens : TokenSet) (key : CellKey) (id : VariableId) :
    (ofCell tokens key).ratioOf? id =
      agreed? ((tokens.compositesOf key).filterMap (ratioFor? id)) :=
  ((gathers_ofCell tokens key).knows id).ratioOf?_eq

/-- A line height has the ratio that the composites with it have in common. -/
theorem ratioOfValue?_ofCell (tokens : TokenSet) (key : CellKey) (height : Binary64) :
    (ofCell tokens key).ratioOfValue? height =
      agreed? ((tokens.compositesOf key).filterMap (ratioAt? (hundredths height))) := by
  rw [ratioOfValue?, (gathers_ofCell tokens key).get?_eq, slot]
  split
  · next hempty => rw [hempty]; rfl
  · rfl

/-- A dispute about a variable is between the different ratios that composites give to it. -/
theorem filter_disputes_ofCell (tokens : TokenSet) (key : CellKey) (id : VariableId) :
    ((ofCell tokens key).disputes.filter fun dispute => dispute.id == id) =
      if 2 ≤ (different ((tokens.compositesOf key).filterMap (ratioFor? id))).length then
        [⟨id, different ((tokens.compositesOf key).filterMap (ratioFor? id))⟩]
      else [] :=
  (gathers_ofCell tokens key).filter_disputes id

/-- A variable is in dispute if composites are bound to it and do not agree. -/
theorem exists_dispute_iff : (∃ dispute ∈ (ofCell tokens key).disputes, dispute.id = id) ↔
    (tokens.compositesOf key).filterMap (ratioFor? id) ≠ [] ∧
      agreed? ((tokens.compositesOf key).filterMap (ratioFor? id)) = none := by
  have hsome : (∃ dispute ∈ (ofCell tokens key).disputes, dispute.id = id) ↔
      ((ofCell tokens key).disputes.filter fun dispute => dispute.id == id) ≠ [] := by
    simp [List.filter_eq_nil_iff]
  rw [hsome, filter_disputes_ofCell, ← two_le_length_different_iff]
  split <;> simp_all

/-- A dispute lists the different ratios that composites give to the variable. -/
theorem ratios_of_mem_disputes {dispute : Dispute} (h : dispute ∈ (ofCell tokens key).disputes) :
    dispute.ratios = different ((tokens.compositesOf key).filterMap (ratioFor? dispute.id)) := by
  have hmem : dispute ∈ (ofCell tokens key).disputes.filter fun other => other.id == dispute.id :=
    List.mem_filter.mpr ⟨h, beq_self_eq_true _⟩
  rw [filter_disputes_ofCell] at hmem
  split at hmem
  · exact congrArg Dispute.ratios (List.mem_singleton.mp hmem)
  · cases hmem

/-! ### Where the ratios of an index come from -/

/-- A ratio that an index has for a variable is the one of a composite that is bound to it. -/
theorem exists_composite_of_ratioOf? (h : (ofCell tokens key).ratioOf? id = some ratio) :
    ∃ composite ∈ tokens.compositesOf key,
      composite.typography.lineHeight.boundTo? = some id ∧
        composite.typography.ratio? = some ratio := by
  rw [ratioOf?_ofCell] at h
  obtain ⟨composite, hmem, hgives⟩ :=
    List.mem_filterMap.mp (List.mem_of_head? (head?_of_agreed? h))
  exact ⟨composite, hmem, by simpa [ratioFor?] using hgives⟩

theorem exists_composite_of_ratioOfValue? {height : Binary64}
    (h : (ofCell tokens key).ratioOfValue? height = some ratio) :
    ∃ composite ∈ tokens.compositesOf key, composite.typography.ratio? = some ratio := by
  rw [ratioOfValue?_ofCell] at h
  obtain ⟨composite, hmem, hgives⟩ :=
    List.mem_filterMap.mp (List.mem_of_head? (head?_of_agreed? h))
  exact ⟨composite, hmem, (by simpa [ratioAt?] using hgives : _ ∧ _).2⟩

theorem exists_composite_of_mem_disputes {dispute : Dispute}
    (h : dispute ∈ (ofCell tokens key).disputes) (hratio : ratio ∈ dispute.ratios) :
    ∃ composite ∈ tokens.compositesOf key, composite.typography.ratio? = some ratio := by
  rw [ratios_of_mem_disputes h] at hratio
  obtain ⟨composite, hmem, hgives⟩ := List.mem_filterMap.mp (mem_of_mem_different hratio)
  exact ⟨composite, hmem, (by simpa [ratioFor?] using hgives : _ ∧ _).2⟩

end DesignTokens.RatioIndex
