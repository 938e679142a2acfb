import DesignTokens.Graph.Resolution
import DesignTokens.Proofs.Graph.Construction
import Mathlib.Data.List.Chain
import Mathlib.Data.List.Nodup
import Mathlib.Data.List.Perm.Basic

/-!
# The walk along aliases

`Graph.resolveFrom` is compared with a description of the walk that does not recurse.

* `IsWalk` says which list of variables a walk comes through: it starts at a variable, each next one
  is where the entry of the one before leads, none occurs twice, and the last one leads nowhere new.
* `Ending` says what the last variable of a walk comes to, and which finding there is.
* `Resolves` puts the two together, with the case of a start that does not exist.

`resolveFrom_eq_of_continues` follows a given walk by induction on the variables ahead, for any
trail behind, and `exists_continues` finds a walk by the measure that makes resolving end.  Between
them `Resolves` is the graph of the function `resolve`.
-/

namespace DesignTokens

/-- The kind of the finding that goes with a reason. -/
def Unresolved.findingKind : Unresolved → FindingKind
  | .missingVariable => .missingVariable
  | .circularReference => .circularReference
  | .noValueForMode => .noValueForMode

namespace Graph

variable {g : Graph} {context : Context}

/-- Where the entry of a variable leads that a context reads. -/
def target? (g : Graph) (context : Context) (id : VariableId) : Option VariableId :=
  ((g.find? id).bind (g.entry? context)).bind Entry.target?

/-- The variables that a walk from `id` comes through. -/
structure IsWalk (g : Graph) (context : Context) (id : VariableId) (chain : Trail) : Prop where
  starts : chain.head? = some id
  known : ∀ hop ∈ chain, (g.find? hop).isSome
  linked : chain.IsChain fun hop next => g.target? context hop = some next
  nodup : chain.Nodup
  /-- The last variable does not lead to one that the walk could go on to. -/
  ends : ∀ last ∈ chain.getLast?, ∀ next ∈ g.target? context last,
    (g.find? next).isSome → next ∈ chain

/-- What a walk comes to at its last variable, with the finding that is noted there. -/
inductive Ending (g : Graph) (context : Context) (chain : Trail) (last : Variable) :
    Logged Value → Prop
  | literal {literal : Literal} (read : g.entry? context last = some (.literal literal)) :
      Ending g context chain last (pure (literal.value last.type))
  | empty (read : g.entry? context last = none) :
      Ending g context chain last (.note (.unresolved .noValueForMode) (emptyFinding last))
  | missing {next : VariableId} (read : g.entry? context last = some (.alias next))
      (unknown : g.find? next = none) :
      Ending g context chain last
        (.note (.unresolved .missingVariable) (g.missingFinding chain next))
  | circular {next : VariableId} (read : g.entry? context last = some (.alias next))
      (visited : next ∈ chain) :
      Ending g context chain last
        (.note (.unresolved .circularReference) (g.circularFinding chain next))

/-- What a variable comes to in a context, by the walk from it. -/
inductive Resolves (g : Graph) (context : Context) (id : VariableId) : Logged Resolution → Prop
  | absent (unknown : g.find? id = none) :
      Resolves g context id
        (.note ⟨.unresolved .missingVariable, []⟩ (g.missingFinding [] id))
  | walk {chain : Trail} {last : VariableId} {v : Variable} {result : Logged Value}
      (walk : g.IsWalk context id chain) (hlast : chain.getLast? = some last)
      (found : g.find? last = some v) (ending : g.Ending context chain v result) :
      Resolves g context id ⟨⟨result.value, chain⟩, result.findings⟩

/-! ## The branches of resolving -/

private theorem resolveFrom_visited {trail : Trail} {id : VariableId} (visited : id ∈ trail) :
    g.resolveFrom context trail id =
      .note ⟨.unresolved .circularReference, trail⟩ (g.circularFinding trail id) := by
  rw [resolveFrom, dif_pos visited]

theorem resolveFrom_unknown {trail : Trail} {id : VariableId} (fresh : id ∉ trail)
    (unknown : g.find? id = none) :
    g.resolveFrom context trail id =
      .note ⟨.unresolved .missingVariable, trail⟩ (g.missingFinding trail id) := by
  rw [resolveFrom, dif_neg fresh]
  split
  · rfl
  · next v found => rw [unknown] at found; cases found

/-- A walk that enters a variable goes by the entry there. -/
theorem resolveFrom_found {trail : Trail} {id : VariableId} {v : Variable} (fresh : id ∉ trail)
    (found : g.find? id = some v) :
    g.resolveFrom context trail id =
      match g.entry? context v with
      | none => .note ⟨.unresolved .noValueForMode, trail ++ [id]⟩ (emptyFinding v)
      | some (.literal literal) => pure ⟨literal.value v.type, trail ++ [id]⟩
      | some (.alias next) => g.resolveFrom context (trail ++ [id]) next := by
  rw [resolveFrom, dif_neg fresh]
  split
  · next unknown => rw [found] at unknown; cases unknown
  · next w hw =>
    obtain rfl : v = w := by rw [found] at hw; exact Option.some.inj hw
    rfl

theorem target?_eq_some_iff {id next : VariableId} {v : Variable} (found : g.find? id = some v) :
    g.target? context id = some next ↔ g.entry? context v = some (.alias next) := by
  rw [target?, found, Option.bind_some, Option.bind_eq_some_iff]
  constructor
  · rintro ⟨entry, hentry, htarget⟩
    cases entry <;> cases htarget
    exact hentry
  · intro hentry
    exact ⟨_, hentry, rfl⟩

/-! ## Following a given walk -/

/-- A walk that came along `trail` can go on with `id` and then `rest`. -/
structure Continues (g : Graph) (context : Context) (trail : Trail) (id : VariableId)
    (rest : Trail) : Prop where
  known : ∀ hop ∈ trail ++ id :: rest, (g.find? hop).isSome
  linked : (id :: rest).IsChain fun hop next => g.target? context hop = some next
  nodup : (trail ++ id :: rest).Nodup

namespace Continues

variable {trail rest : Trail} {id next : VariableId}

theorem fresh (h : g.Continues context trail id rest) : id ∉ trail := by
  have := List.disjoint_of_nodup_append h.nodup
  exact fun hid => this hid List.mem_cons_self

theorem exists_found (h : g.Continues context trail id rest) : ∃ v, g.find? id = some v :=
  Option.isSome_iff_exists.mp (h.known id (by simp))

/-- One hop on. -/
theorem tail (h : g.Continues context trail id (next :: rest)) :
    g.Continues context (trail ++ [id]) next rest := by
  have hsame : trail ++ [id] ++ next :: rest = trail ++ id :: next :: rest := by simp
  refine ⟨?_, h.linked.tail, ?_⟩
  · rw [hsame]
    exact h.known
  · rw [hsame]
    exact h.nodup

/-- The entry of a variable with a hop behind it leads there. -/
theorem entry?_eq (h : g.Continues context trail id (next :: rest)) {v : Variable}
    (found : g.find? id = some v) : g.entry? context v = some (.alias next) :=
  (target?_eq_some_iff found).mp (List.isChain_cons_cons.mp h.linked).1

end Continues

/-- Resolving follows a walk to its last variable and comes to the ending there. -/
theorem resolveFrom_eq_of_continues {trail rest : Trail} {id last : VariableId} {v : Variable}
    {result : Logged Value} (walk : g.Continues context trail id rest)
    (hlast : (id :: rest).getLast? = some last) (found : g.find? last = some v)
    (ending : g.Ending context (trail ++ id :: rest) v result) :
    g.resolveFrom context trail id =
      ⟨⟨result.value, trail ++ id :: rest⟩, result.findings⟩ := by
  induction rest generalizing trail id with
  | nil =>
      obtain rfl : id = last := by simpa using hlast
      rw [resolveFrom_found walk.fresh found]
      cases ending with
      | literal read => rw [read]; rfl
      | empty read => rw [read]; rfl
      | missing read unknown =>
          rename_i next
          -- every variable of the trail exists, so the missing one is not among them
          have hnext : next ∉ trail ++ [id] := fun hmem => by
            simpa [unknown] using walk.known next hmem
          rw [read]
          exact resolveFrom_unknown hnext unknown
      | circular read visited =>
          rw [read]
          exact resolveFrom_visited visited
  | cons next rest ih =>
      obtain ⟨w, hw⟩ := walk.exists_found
      have hsame : trail ++ [id] ++ next :: rest = trail ++ id :: next :: rest := by simp
      rw [resolveFrom_found walk.fresh hw, walk.entry?_eq hw, ← hsame]
      exact ih walk.tail (by simpa using hlast) (hsame ▸ ending)

/-! ## Finding the walk -/

/-- From a variable that exists and is new there is a walk, and it comes to an ending. -/
theorem exists_continues {trail : Trail} {id : VariableId} {v : Variable}
    (htrail : ∀ hop ∈ trail, (g.find? hop).isSome) (hnodup : trail.Nodup)
    (fresh : id ∉ trail) (found : g.find? id = some v) :
    ∃ rest last w result, g.Continues context trail id rest ∧
      (id :: rest).getLast? = some last ∧ g.find? last = some w ∧
        g.Ending context (trail ++ id :: rest) w result := by
  induction hcount : g.unvisited trail using Nat.strongRecOn generalizing trail id v with
  | _ count ih =>
      have hknown : ∀ hop ∈ trail ++ [id], (g.find? hop).isSome := by
        simpa [or_imp, forall_and, found] using htrail
      have hentered : (trail ++ [id]).Nodup := by
        rw [← List.concat_eq_append]
        exact hnodup.concat fresh
      -- wherever the walk cannot go on, it is the one that ends here
      have stop : ∀ {result}, g.Ending context (trail ++ [id]) v result → ∃ rest last w result,
          g.Continues context trail id rest ∧ (id :: rest).getLast? = some last ∧
            g.find? last = some w ∧ g.Ending context (trail ++ id :: rest) w result := by
        intro result ending
        exact ⟨[], id, v, result, ⟨hknown, by simp, hentered⟩, rfl, found, ending⟩
      rcases hread : g.entry? context v with _ | literal | next
      · exact stop (.empty hread)
      · exact stop (.literal hread)
      · by_cases hvisited : next ∈ trail ++ [id]
        · exact stop (.circular hread hvisited)
        · cases hnext : g.find? next with
          | none => exact stop (.missing hread hnext)
          | some w =>
              have hlt := unvisited_lt fresh found
              obtain ⟨rest, last, u, result, walk, hlast, hu, ending⟩ :=
                ih _ (hcount ▸ hlt) hknown hentered hvisited hnext rfl
              have hsame : trail ++ [id] ++ next :: rest = trail ++ id :: next :: rest := by simp
              refine ⟨next :: rest, last, u, result, ⟨hsame ▸ walk.known, ?_, hsame ▸ walk.nodup⟩,
                by simpa using hlast, hu, hsame ▸ ending⟩
              exact walk.linked.cons_cons ((target?_eq_some_iff found).mpr hread)

/-! ## Resolving is walking -/

theorem IsWalk.exists_continues {id : VariableId} {chain : Trail}
    (walk : g.IsWalk context id chain) :
    ∃ rest, chain = id :: rest ∧ g.Continues context [] id rest := by
  obtain ⟨rest, rfl⟩ : ∃ rest, chain = id :: rest := by
    cases chain with
    | nil => cases walk.starts
    | cons first rest => exact ⟨rest, by rw [Option.some.inj walk.starts]⟩
  exact ⟨rest, rfl, walk.known, walk.linked, walk.nodup⟩

/-- A walk with an ending leads nowhere new. -/
theorem Continues.isWalk {id last : VariableId} {rest : Trail} {v : Variable}
    {result : Logged Value} (walk : g.Continues context [] id rest)
    (hlast : (id :: rest).getLast? = some last) (found : g.find? last = some v)
    (ending : g.Ending context (id :: rest) v result) :
    g.IsWalk context id (id :: rest) := by
  refine ⟨rfl, walk.known, walk.linked, walk.nodup, ?_⟩
  intro other hother next hnext hknown
  obtain rfl : last = other := Option.some.inj (hlast.symm.trans hother)
  have read := (target?_eq_some_iff found).mp hnext
  cases ending with
  | literal read' => rw [read] at read'; cases read'
  | empty read' => rw [read] at read'; cases read'
  | missing read' unknown =>
      rw [read] at read'
      cases read'
      simp [unknown] at hknown
  | circular read' visited =>
      rw [read] at read'
      cases read'
      exact visited

theorem resolve_eq_of_resolves {id : VariableId} {result : Logged Resolution}
    (h : g.Resolves context id result) : g.resolve context id = result := by
  cases h with
  | absent unknown => exact resolveFrom_unknown (by simp) unknown
  | walk walk hlast found ending =>
      obtain ⟨rest, rfl, continues⟩ := walk.exists_continues
      exact resolveFrom_eq_of_continues continues hlast found ending

theorem resolve_of_unknown {id : VariableId} (unknown : g.find? id = none) (context : Context) :
    g.resolve context id =
      .note ⟨.unresolved .missingVariable, []⟩ (g.missingFinding [] id) :=
  resolve_eq_of_resolves (.absent unknown)

theorem resolves_resolve (g : Graph) (context : Context) (id : VariableId) :
    g.Resolves context id (g.resolve context id) := by
  cases hfound : g.find? id with
  | none =>
      rw [resolve_of_unknown hfound]
      exact .absent hfound
  | some v =>
      obtain ⟨rest, last, w, result, continues, hlast, hw, ending⟩ :=
        @exists_continues g context [] id v (by simp) .nil (by simp) hfound
      have h := Resolves.walk (continues.isWalk hlast hw ending) hlast hw ending
      rw [resolve_eq_of_resolves h]
      exact h

/-! ## What follows for every result -/

theorem chain_resolve_eq_cons {id : VariableId} {v : Variable} (found : g.find? id = some v)
    (context : Context) : ∃ rest, (g.resolve context id).value.chain = id :: rest := by
  have resolves := resolves_resolve g context id
  generalize g.resolve context id = result at resolves ⊢
  cases resolves with
  | absent unknown => rw [found] at unknown; cases unknown
  | walk walk hlast hfound ending =>
      obtain ⟨rest, hchain, -⟩ := walk.exists_continues
      exact ⟨rest, hchain⟩

theorem nodup_chain_resolve (g : Graph) (context : Context) (id : VariableId) :
    (g.resolve context id).value.chain.Nodup := by
  have resolves := resolves_resolve g context id
  generalize g.resolve context id = result at resolves ⊢
  cases resolves with
  | absent unknown => exact .nil
  | walk walk hlast found ending => exact walk.nodup

private theorem eq_of_linked {front rest : Trail} {hop other next : VariableId}
    (linked : (front ++ hop :: other :: rest).IsChain fun hop next =>
      g.target? context hop = some next)
    (hnext : g.target? context hop = some next) : next = other := by
  have hother := (List.isChain_cons_cons.mp linked.right_of_append).1
  rw [hnext] at hother
  exact Option.some.inj hother

/-- Where a variable of a walk leads, the walk has gone, if there is a variable. -/
theorem IsWalk.mem_of_target? {id hop next : VariableId} {chain : Trail}
    (walk : g.IsWalk context id chain) (hhop : hop ∈ chain)
    (hnext : g.target? context hop = some next) (hknown : (g.find? next).isSome) :
    next ∈ chain := by
  obtain ⟨front, rest, rfl⟩ := List.append_of_mem hhop
  cases rest with
  | nil => exact walk.ends hop (by simp) next hnext hknown
  | cons other rest =>
      rw [eq_of_linked walk.linked hnext]
      simp

/-- Up to the first variable that fails a test, a walk has gone where its variables lead, if the
test is passed there. -/
theorem IsWalk.mem_takeWhile_of_target? {id hop next : VariableId} {chain : Trail}
    (walk : g.IsWalk context id chain) {test : VariableId → Bool}
    (hhop : hop ∈ chain.takeWhile test) (hnext : g.target? context hop = some next)
    (hknown : (g.find? next).isSome) (hpassed : test next) : next ∈ chain.takeWhile test := by
  have hparts := List.takeWhile_append_dropWhile (p := test) (l := chain)
  obtain ⟨front, rest, hsplit⟩ := List.append_of_mem hhop
  have hlinked := walk.linked
  rw [← hparts, hsplit, List.append_assoc] at hlinked
  cases rest with
  | cons other rest =>
      rw [hsplit, eq_of_linked hlinked hnext]
      simp
  | nil =>
      cases hbehind : chain.dropWhile test with
      | nil =>
          rw [hbehind, List.append_nil] at hparts
          rw [hparts] at hhop ⊢
          exact walk.mem_of_target? hhop hnext hknown
      | cons other rest =>
          -- the first variable behind the part fails the test
          have hfails := List.head_dropWhile_not test (l := chain) (by simp [hbehind])
          rw [hbehind] at hlinked
          simp [hbehind, ← eq_of_linked hlinked hnext, hpassed] at hfails

theorem IsWalk.length_le {id : VariableId} {chain : Trail} (walk : g.IsWalk context id chain) :
    chain.length ≤ g.nodes.length := by
  have hsub : chain ⊆ g.nodes.map Variable.id := by
    intro hop hhop
    obtain ⟨v, hv⟩ := Option.isSome_iff_exists.mp (walk.known hop hhop)
    obtain ⟨hmem, rfl⟩ := find?_eq_some_iff.mp hv
    exact List.mem_map_of_mem hmem
  calc chain.length ≤ (g.nodes.map Variable.id).length :=
        (List.subperm_of_subset walk.nodup hsub).length_le
    _ = g.nodes.length := by rw [List.length_map]

/-- An ending notes one finding, of the kind of its reason, or none if it has a value. -/
theorem Ending.findings_eq {chain : Trail} {last : Variable} {result : Logged Value}
    (ending : g.Ending context chain last result) :
    result.findings.map Finding.kind =
      (result.value.reason?.map Unresolved.findingKind).toList := by
  cases ending with
  | literal read => simp
  | empty read => rfl
  | missing read unknown => rfl
  | circular read visited => rfl

theorem Resolves.length_le {id : VariableId} {result : Logged Resolution}
    (h : g.Resolves context id result) : result.value.chain.length ≤ g.nodes.length := by
  cases h with
  | absent unknown => exact Nat.zero_le _
  | walk walk hlast found ending => exact walk.length_le

theorem Resolves.findings_eq {id : VariableId} {result : Logged Resolution}
    (h : g.Resolves context id result) :
    result.findings.map Finding.kind =
      (result.value.value.reason?.map Unresolved.findingKind).toList := by
  cases h with
  | absent unknown => rfl
  | walk walk hlast found ending => exact ending.findings_eq

/-- **Resolving is walking.**  In a graph built from an export, a variable comes in a context to
what the walk from it comes to and to nothing else.  The walk is no longer than the graph has
variables; a finding is noted exactly if there is no value, and it is of the kind of the reason; and
a walk finds nothing to read only in a variable without any entry. -/
theorem resolve_eq_iff_resolves {source : Export} {overrides : List KindOverride} {g : Graph}
    (built : ofExport source overrides = .ok g) (context : Context) (id : VariableId) :
    (∀ result, g.resolve context id = result ↔ g.Resolves context id result) ∧
      (g.resolve context id).value.chain.length ≤ g.nodes.length ∧
      (g.resolve context id).findings.map Finding.kind =
        ((g.resolve context id).value.value.reason?.map Unresolved.findingKind).toList ∧
      ∀ v ∈ g.nodes, g.entry? context v = none ↔ v.entries.keys = [] := by
  have resolves := resolves_resolve g context id
  refine ⟨fun result => ⟨?_, resolve_eq_of_resolves⟩, resolves.length_le, resolves.findings_eq, ?_⟩
  · rintro rfl
    exact resolves
  · intro v hv
    exact (sound_of_ofExport built).entry?_eq_none_iff hv context

end Graph

namespace Sample

/-- A size of an eighth. -/
def hairline : Variable :=
  ⟨⟨"hairline"⟩, "Size/hairline", sizes.id, .float,
    Table.empty.insert ⟨"value"⟩ (.literal (.number (1 / 8)))⟩

def rule : Variable :=
  ⟨⟨"rule"⟩, "Size/rule", sizes.id, .float, Table.empty.insert ⟨"value"⟩ (.alias hairline.id)⟩

def ruleSource : Export where
  collections := [⟨sizes.id, sizes.name, sizes.modes⟩]
  nodes := [hairline, rule]

def rules : Graph := ⟨.ofList [sizes], .ofList [hairline, rule], [], []⟩

/-- At the large breakpoint the walk from `body` comes back to it over `heading`.  The walk from
`rule` ends at an eighth, which has the value of thirteen hundredths. -/
theorem resolve_body_and_rule :
    Graph.ofExport source [] = .ok graph ∧
      graph.resolve { breakpoint := some ⟨"lg"⟩ } ⟨"body"⟩ =
        .note ⟨.unresolved .circularReference, [⟨"body"⟩, ⟨"heading"⟩]⟩
          ⟨.circularReference, "Text/body", "Text/body -> Text/heading -> Text/body"⟩ ∧
      Graph.ofExport ruleSource [] = .ok rules ∧
      rules.resolve .unspecified ⟨"rule"⟩ =
        ⟨⟨.float (13 / 100), [⟨"rule"⟩, ⟨"hairline"⟩]⟩, []⟩ := by
  have hrules : Graph.ofExport ruleSource [] = .ok rules := rfl
  refine ⟨ofExport_source, ?_, hrules, ?_⟩
  · have walk : graph.IsWalk { breakpoint := some ⟨"lg"⟩ } ⟨"body"⟩ [⟨"body"⟩, ⟨"heading"⟩] :=
      ⟨rfl, by decide, by decide, by decide, by decide⟩
    have found : graph.find? ⟨"heading"⟩ = some heading := rfl
    have read : graph.entry? { breakpoint := some ⟨"lg"⟩ } heading = some (.alias ⟨"body"⟩) := rfl
    exact ((Graph.resolve_eq_iff_resolves ofExport_source _ _).1 _).mpr
      (.walk walk rfl found (.circular read (by decide)))
  · have walk : rules.IsWalk .unspecified ⟨"rule"⟩ [⟨"rule"⟩, ⟨"hairline"⟩] :=
      ⟨rfl, by decide, by decide, by decide, by decide⟩
    have found : rules.find? ⟨"hairline"⟩ = some hairline := rfl
    have read : rules.entry? .unspecified hairline = some (.literal (.number (1 / 8))) := rfl
    have hvalue : (Literal.number (1 / 8)).value hairline.type = .float (13 / 100) := by
      decide +kernel
    have resolves := Graph.Resolves.walk walk rfl found (.literal read)
    rw [hvalue] at resolves
    exact ((Graph.resolve_eq_iff_resolves hrules _ _).1 _).mpr resolves

end Sample

end DesignTokens
