import DesignTokens.Graph.Endpoint
import DesignTokens.Proofs.Graph.Walk

/-!
# Endpoints lie on the walk

`Graph.endpointFrom` walks on its own: it stops early, and it makes its own checks for variables
that it came through and for ones that do not exist.  It still comes along the walk that resolving
follows: `endpointFrom_eq_of_continues` runs it along a given walk, as `resolveFrom_eq_of_continues`
does for resolving.  So the endpoint is the first accepted variable behind the start, and without
one the finding is that of resolving.  The one difference is that a variable without entries is no
finding here.

`Accepted` says at which variables a walk stops, layer by layer.
-/

namespace DesignTokens.Graph

variable {g : Graph} {context : Context} {stops : Stops}

/-- The variables at which a walk stops, each with its layer. -/
inductive Accepted (g : Graph) (stops : Stops) (v : Variable) : CollectionKind → Prop
  | primitive (layer : g.kind? v = some .primitive) : Accepted g stops v .primitive
  | semantic {axis : Axis} (layer : g.kind? v = some (.semantic axis))
      (hunscoped : ¬ v.isScoped stops.componentPrefix) (flag : stops.flags.semantic) :
      Accepted g stops v (.semantic axis)
  | componentBreakpoint (layer : g.kind? v = some (.semantic .breakpoint))
      (hscoped : v.isScoped stops.componentPrefix) (flag : stops.flags.componentBreakpoint) :
      Accepted g stops v (.semantic .breakpoint)
  | density (layer : g.kind? v = some .density) (flag : stops.flags.density) :
      Accepted g stops v .density

theorem acceptedKind?_eq_some_iff {v : Variable} {kind : CollectionKind} :
    g.acceptedKind? stops v = some kind ↔ g.Accepted stops v kind := by
  rw [acceptedKind?, Option.filter_eq_some_iff]
  constructor
  · rintro ⟨layer, accepts⟩
    cases kind with
    | primitive => exact .primitive layer
    | density => exact .density layer accepts
    | brandMapping axis => cases accepts
    | component => cases accepts
    | semantic axis =>
        by_cases hscoped : v.isScoped stops.componentPrefix
        · obtain ⟨rfl, flag⟩ : axis = .breakpoint ∧ stops.flags.componentBreakpoint := by
            simpa [Acceptance.accepts, hscoped] using accepts
          exact .componentBreakpoint layer hscoped flag
        · exact .semantic layer hscoped (by simpa [Acceptance.accepts, hscoped] using accepts)
  · intro accepted
    cases accepted with
    | primitive layer => exact ⟨layer, rfl⟩
    | semantic layer hunscoped flag =>
        exact ⟨layer, by simpa [Acceptance.accepts, hunscoped] using flag⟩
    | componentBreakpoint layer hscoped flag =>
        exact ⟨layer, by simpa [Acceptance.accepts, hscoped] using flag⟩
    | density layer flag => exact ⟨layer, flag⟩

/-- The endpoint at a variable, if a walk stops there. -/
def endpointAt? (g : Graph) (stops : Stops) (hop : VariableId) : Option Endpoint :=
  (g.find? hop).bind fun v => (g.acceptedKind? stops v).map fun kind => .ofVariable kind v

theorem endpointAt?_eq_some_iff {hop : VariableId} {endpoint : Endpoint} :
    g.endpointAt? stops hop = some endpoint ↔ ∃ v kind, g.find? hop = some v ∧
      g.Accepted stops v kind ∧ endpoint = ⟨kind, v.id, v.path, v.leaf⟩ := by
  simp only [endpointAt?, Option.bind_eq_some_iff, Option.map_eq_some_iff,
    acceptedKind?_eq_some_iff]
  constructor
  · rintro ⟨v, found, kind, accepted, rfl⟩
    exact ⟨v, kind, found, accepted, rfl⟩
  · rintro ⟨v, kind, found, accepted, rfl⟩
    exact ⟨v, found, kind, accepted, rfl⟩

theorem endpointAt?_eq_none_iff {hop : VariableId} :
    g.endpointAt? stops hop = none ↔
      ∀ v kind, g.find? hop = some v → ¬ g.Accepted stops v kind := by
  rw [← Option.not_isSome_iff_eq_none, Option.isSome_iff_exists]
  simp only [endpointAt?_eq_some_iff]
  constructor
  · intro h v kind found accepted
    exact h ⟨_, v, kind, found, accepted, rfl⟩
  · rintro h ⟨_, v, kind, found, accepted, -⟩
    exact h v kind found accepted

/-! ## The branches of classifying -/

theorem endpointFrom_inline {trail : Trail} {v : Variable}
    (inline : ∀ next, g.entry? context v ≠ some (.alias next)) :
    g.endpointFrom context stops trail v = pure none := by
  rw [endpointFrom]
  split
  · rfl
  · rfl
  · next target read => exact absurd read (inline target)

theorem endpointFrom_visited {trail : Trail} {v : Variable} {next : VariableId}
    (read : g.entry? context v = some (.alias next)) (visited : next ∈ trail) :
    g.endpointFrom context stops trail v = .note none (g.circularFinding trail next) := by
  rw [endpointFrom, read]
  exact dif_pos visited

theorem endpointFrom_unknown {trail : Trail} {v : Variable} {next : VariableId}
    (read : g.entry? context v = some (.alias next)) (fresh : next ∉ trail)
    (unknown : g.find? next = none) :
    g.endpointFrom context stops trail v =
      .note none ⟨.missingVariable, next.text, "referenced from " ++ v.path⟩ := by
  rw [endpointFrom, read]
  simp only [dif_neg fresh]
  split
  · rfl
  · next w found => rw [unknown] at found; cases found

/-- A walk that goes on stops at the next variable or looks behind it. -/
theorem endpointFrom_found {trail : Trail} {v w : Variable} {next : VariableId}
    (read : g.entry? context v = some (.alias next)) (fresh : next ∉ trail)
    (found : g.find? next = some w) :
    g.endpointFrom context stops trail v =
      match g.endpointAt? stops next with
      | some endpoint => pure (some endpoint)
      | none => g.endpointFrom context stops (trail ++ [next]) w := by
  rw [endpointFrom, read, endpointAt?, found]
  simp only [dif_neg fresh]
  split
  · next unknown => rw [found] at unknown; cases unknown
  · next u hu =>
    obtain rfl : w = u := by rw [found] at hu; exact Option.some.inj hu
    cases h : g.acceptedKind? stops w with
    | none => simp [h]
    | some kind => simp [h]

/-! ## Along a given walk -/

/-- What is noted beside an endpoint on a walk with an ending: nothing if there is one, or else the
finding of the ending, unless that is about a variable without entries. -/
def findingsBeside (endpoint : Option Endpoint) (ending : List Finding) : List Finding :=
  match endpoint with
  | some _ => []
  | none => ending.filter fun finding => finding.kind != .noValueForMode

theorem endpointFrom_eq_of_continues {trail rest : Trail} {id last : VariableId} {v w : Variable}
    {result : Logged Value} (walk : g.Continues context trail id rest)
    (hv : g.find? id = some v) (hlast : (id :: rest).getLast? = some last)
    (found : g.find? last = some w)
    (ending : g.Ending context (trail ++ id :: rest) w result) :
    g.endpointFrom context stops (trail ++ [id]) v =
      ⟨rest.findSome? (g.endpointAt? stops),
        findingsBeside (rest.findSome? (g.endpointAt? stops)) result.findings⟩ := by
  induction rest generalizing trail id v with
  | nil =>
      obtain rfl : id = last := by simpa using hlast
      obtain rfl : v = w := by rw [hv] at found; exact Option.some.inj found
      cases ending with
      | literal read => exact endpointFrom_inline (by simp [read])
      | empty read => exact endpointFrom_inline (by simp [read])
      | missing read unknown =>
          rename_i next
          have hnext : next ∉ trail ++ [id] := fun hmem => by
            simpa [unknown] using walk.known next hmem
          -- one finding names where the walk came from, the other the variable it stands at
          have horigin : g.origin (trail ++ [id]) = v.path := by
            simp [origin, pathOf, hv]
          rw [endpointFrom_unknown read hnext unknown, ← horigin]
          rfl
      | circular read visited => exact endpointFrom_visited read visited
  | cons next rest ih =>
      obtain ⟨u, hu⟩ := walk.tail.exists_found
      rw [endpointFrom_found (walk.entry?_eq hv) walk.tail.fresh hu, List.findSome?_cons]
      cases g.endpointAt? stops next with
      | some endpoint => rfl
      | none =>
          have hsame : trail ++ [id] ++ next :: rest = trail ++ id :: next :: rest := by simp
          exact ih walk.tail hu (by simpa using hlast) (hsame ▸ ending)

/-- The endpoint of a variable, by what resolving it gives. -/
theorem endpoint_eq_of_resolve {id : VariableId} {v : Variable} (hv : g.find? id = some v) :
    g.endpoint context stops id =
      let hops := (g.resolve context id).value.chain.tail
      ⟨hops.findSome? (g.endpointAt? stops),
        findingsBeside (hops.findSome? (g.endpointAt? stops)) (g.resolve context id).findings⟩ := by
  have resolves := resolves_resolve g context id
  generalize g.resolve context id = resolution at resolves ⊢
  cases resolves with
  | absent unknown => rw [hv] at unknown; cases unknown
  | walk walk hlast found ending =>
      obtain ⟨rest, rfl, continues⟩ := walk.exists_continues
      rw [endpoint, hv]
      exact endpointFrom_eq_of_continues continues hv hlast found ending

/-- **The endpoint is the first accepted variable of the chain.**  With the chain that resolving a
variable of the graph gives: an endpoint is the first variable behind the start at which walks stop,
and there is none exactly if walks stop nowhere behind the start.  An endpoint leaves no finding;
without one the findings are those of resolving, less the one about a variable without entries. -/
theorem endpoint_eq_some_iff {id : VariableId} {v : Variable} (hv : g.find? id = some v)
    (context : Context) (stops : Stops) :
    (∀ endpoint, (g.endpoint context stops id).value = some endpoint ↔
      ∃ earlier hop later w kind,
        (g.resolve context id).value.chain = id :: (earlier ++ hop :: later) ∧
        (∀ other ∈ earlier, ∀ u kind, g.find? other = some u → ¬ g.Accepted stops u kind) ∧
        g.find? hop = some w ∧ g.Accepted stops w kind ∧
        endpoint = ⟨kind, w.id, w.path, w.leaf⟩) ∧
      ((g.endpoint context stops id).value = none ↔
        ∀ hop ∈ (g.resolve context id).value.chain.tail, ∀ u kind,
          g.find? hop = some u → ¬ g.Accepted stops u kind) ∧
      (∀ endpoint, (g.endpoint context stops id).value = some endpoint →
        (g.endpoint context stops id).findings = []) ∧
      ((g.endpoint context stops id).value = none →
        (g.endpoint context stops id).findings =
          (g.resolve context id).findings.filter fun f => f.kind != .noValueForMode) := by
  -- the search looks at the hops behind the start and takes the first that is accepted
  obtain ⟨rest, hchain⟩ : ∃ rest, (g.resolve context id).value.chain = id :: rest :=
    chain_resolve_eq_cons hv context
  rw [endpoint_eq_of_resolve hv, hchain]
  refine ⟨?_, ?_, ?_, ?_⟩
  · intro endpoint
    simp only [List.tail_cons, List.findSome?_eq_some_iff, endpointAt?_eq_some_iff,
      endpointAt?_eq_none_iff, List.cons.injEq, true_and]
    constructor
    · rintro ⟨earlier, hop, later, hsplit, ⟨w, kind, found, accepted, heq⟩, hearlier⟩
      exact ⟨earlier, hop, later, w, kind, hsplit, hearlier, found, accepted, heq⟩
    · rintro ⟨earlier, hop, later, w, kind, hsplit, hearlier, found, accepted, heq⟩
      exact ⟨earlier, hop, later, hsplit, ⟨w, kind, found, accepted, heq⟩, hearlier⟩
  · simp only [List.tail_cons, List.findSome?_eq_none_iff, endpointAt?_eq_none_iff]
  · intro endpoint hendpoint
    simp only [List.tail_cons] at hendpoint ⊢
    rw [hendpoint]
    rfl
  · intro hnone
    simp only [List.tail_cons] at hnone ⊢
    rw [hnone]
    rfl

/-- At the small breakpoint the chain of `heading` leads over `body`, which is in no accepted layer,
to a primitive. -/
theorem endpoint_heading_at_small :
    Sample.graph.find? ⟨"heading"⟩ = some Sample.heading ∧
      (Sample.graph.endpoint { breakpoint := some ⟨"sm"⟩ } ⟨.primitives, "Component/"⟩
          ⟨"heading"⟩).value = some ⟨.primitive, ⟨"sixteen"⟩, "Size/16", "16"⟩ := by
  have walk : Sample.graph.IsWalk { breakpoint := some ⟨"sm"⟩ } ⟨"heading"⟩
      [⟨"heading"⟩, ⟨"body"⟩, ⟨"sixteen"⟩] := by
    exact ⟨rfl, by decide, by decide, by decide, by decide⟩
  have found : Sample.graph.find? ⟨"sixteen"⟩ = some Sample.sixteen := rfl
  have read : Sample.graph.entry? { breakpoint := some ⟨"sm"⟩ } Sample.sixteen =
      some (.literal (.number 16)) := rfl
  have resolved := resolve_eq_of_resolves (.walk walk rfl found (.literal read))
  refine ⟨rfl, ((endpoint_eq_some_iff rfl _ _).1 _).mpr
    ⟨[⟨"body"⟩], ⟨"sixteen"⟩, [], Sample.sixteen, .primitive, ?_, ?_, rfl, .primitive rfl, ?_⟩⟩
  · rw [resolved]
    rfl
  · intro other hother
    rw [List.mem_singleton.mp hother]
    exact endpointAt?_eq_none_iff.mp rfl
  · decide

end DesignTokens.Graph
