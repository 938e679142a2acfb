import DesignTokens.Pipeline.Basic
import DesignTokens.Proofs.Graph.Circles
import DesignTokens.Proofs.Graph.Classification
import DesignTokens.Proofs.Replay

/-!
# References to variables

A walk from a variable may stop behind it, a walk from a reference to the variable at it as well.
So the one endpoint is the first accepted variable of the chain behind the start
(`Graph.value_endpoint`), the other that of the whole chain (`Graph.value_endpointOfReference`).

An alias is such a reference.  If it does not lead back to the variable that holds it, the chain of
that variable is the chain behind the alias with one more variable in front, and it comes to the
same ending (`Graph.resolve_of_alias`).  This includes a circle: the walk meets itself at the same
place, as it does not come through the variable in front again.  So to stop behind the variable is
to stop at or behind what it refers to.
-/

namespace DesignTokens.Graph

variable {g : Graph} {context : Context} {stops : Stops} {id hop first : VariableId}

/-! ## Endpoints by chains -/

theorem id_of_endpointAt? {endpoint : Endpoint} (h : g.endpointAt? stops hop = some endpoint) :
    endpoint.id = hop := by
  obtain ⟨v, kind, found, -, rfl⟩ := endpointAt?_eq_some_iff.mp h
  exact (find?_eq_some_iff.mp found).2

/-- The endpoint of a variable is the first one behind it. -/
theorem value_endpoint (g : Graph) (context : Context) (stops : Stops) (id : VariableId) :
    (g.endpoint context stops id).value =
      (g.resolve context id).value.chain.tail.findSome? (g.endpointAt? stops) := by
  cases hfound : g.find? id with
  | none =>
      rw [resolve_of_unknown hfound, endpoint, hfound]
      rfl
  | some v => rw [endpoint_eq_of_resolve hfound]

/-- The endpoint of a reference to a variable of the graph, by what resolving the variable gives. -/
theorem endpointOfReference_eq_of_resolve {v : Variable} (found : g.find? id = some v) :
    g.endpointOfReference context stops id =
      let hops := (g.resolve context id).value.chain
      ⟨hops.findSome? (g.endpointAt? stops),
        findingsBeside (hops.findSome? (g.endpointAt? stops)) (g.resolve context id).findings⟩ := by
  obtain ⟨rest, hchain⟩ := chain_resolve_eq_cons found context
  have hat : g.endpointAt? stops id =
      (g.acceptedKind? stops v).map fun kind => .ofVariable kind v := by
    rw [endpointAt?, found, Option.bind_some]
  rw [endpointOfReference, found, hchain]
  simp only [List.findSome?_cons, hat]
  cases haccepted : g.acceptedKind? stops v with
  | some kind => rfl
  | none =>
      simp only [endpoint_eq_of_resolve found, hchain]
      rfl

/-- The endpoint of a reference is the first one at or behind the variable. -/
theorem value_endpointOfReference (g : Graph) (context : Context) (stops : Stops)
    (id : VariableId) : (g.endpointOfReference context stops id).value =
      (g.resolve context id).value.chain.findSome? (g.endpointAt? stops) := by
  cases hfound : g.find? id with
  | none =>
      rw [resolve_of_unknown hfound, endpointOfReference, hfound]
      rfl
  | some v => rw [endpointOfReference_eq_of_resolve hfound]

/-! ## One more variable in front -/

/-- With one more variable in front a walk comes to the same ending.  Only the detail of a circular
reference lists the variables of the whole walk. -/
theorem Ending.behind {rest : Trail} {last : Variable} {result : Logged Value} (first : VariableId)
    (ending : g.Ending context (hop :: rest) last result) :
    ∃ behind, g.Ending context (first :: hop :: rest) last behind ∧
      behind.value = result.value ∧
        behind.findings.map Finding.topic = result.findings.map Finding.topic := by
  cases ending with
  | literal read => exact ⟨_, .literal read, rfl, rfl⟩
  | empty read => exact ⟨_, .empty read, rfl, rfl⟩
  | missing read unknown => exact ⟨_, .missing read unknown, rfl, rfl⟩
  | circular read visited => exact ⟨_, .circular read (List.mem_cons_of_mem _ visited), rfl, rfl⟩

theorem Continues.behind {rest : Trail} (walk : g.Continues context [] id rest)
    (known : (g.find? first).isSome) (fresh : first ∉ id :: rest) :
    g.Continues context [first] id rest where
  known := List.forall_mem_cons.mpr ⟨known, walk.known⟩
  linked := walk.linked
  nodup := List.nodup_cons.mpr ⟨fresh, walk.nodup⟩

/-- A variable with an alias that does not lead back to it comes to what is behind the alias. -/
theorem resolve_of_alias {v : Variable} (found : g.find? v.id = some v)
    (read : g.entry? context v = some (.alias id))
    (fresh : v.id ∉ (g.resolve context id).value.chain) :
    (g.resolve context v.id).value =
        ⟨(g.resolve context id).value.value, v.id :: (g.resolve context id).value.chain⟩ ∧
      (g.resolve context v.id).findings.map Finding.topic =
        (g.resolve context id).findings.map Finding.topic := by
  -- one hop on, the walk is that of the target with the variable on its trail
  have hstep : g.resolve context v.id = g.resolveFrom context [v.id] id := by
    rw [resolve, resolveFrom_found List.not_mem_nil found, read]
    rfl
  rw [hstep]
  have resolves := resolves_resolve g context id
  generalize g.resolve context id = result at resolves fresh ⊢
  cases resolves with
  | absent unknown =>
      have hne : id ∉ [v.id] := by
        rintro hid
        rw [List.mem_singleton.mp hid, found] at unknown
        cases unknown
      rw [resolveFrom_unknown hne unknown]
      exact ⟨rfl, rfl⟩
  | walk walk hlast hw ending =>
      -- the trail is fresh, so the walk goes on behind it as it would without
      obtain ⟨rest, rfl, continues⟩ := walk.exists_continues
      obtain ⟨behind, hbehind, hvalue, htopics⟩ := ending.behind v.id
      have known : (g.find? v.id).isSome := by rw [found]; rfl
      rw [resolveFrom_eq_of_continues (continues.behind known fresh) hlast hw hbehind]
      exact ⟨by rw [hvalue]; rfl, htopics⟩

/-! ## Aliases are references -/

/-- Beside one endpoint, findings about the same leave findings about the same. -/
theorem topics_findingsBeside {findings others : List Finding}
    (h : findings.map Finding.topic = others.map Finding.topic) (endpoint : Option Endpoint) :
    (findingsBeside endpoint findings).map Finding.topic =
      (findingsBeside endpoint others).map Finding.topic := by
  cases endpoint with
  | some endpoint => rfl
  | none =>
      have hfilter : ∀ findings : List Finding,
          (findings.filter fun finding => finding.kind != .noValueForMode).map Finding.topic =
            (findings.map Finding.topic).filter fun topic => topic.1 != .noValueForMode := by
        intro findings
        rw [List.filter_map]
        rfl
      rw [findingsBeside, findingsBeside, hfilter, hfilter, h]

section

variable {v : Variable} (found : g.find? v.id = some v)
  (read : g.entry? context v = some (.alias id))
  (fresh : v.id ∉ (g.resolve context id).value.chain)

include found read fresh

theorem value_endpoint_of_alias (stops : Stops) :
    (g.endpoint context stops v.id).value = (g.endpointOfReference context stops id).value := by
  rw [value_endpoint, value_endpointOfReference, (resolve_of_alias found read fresh).1,
    List.tail_cons]

private theorem topics_endpoint_of_alias (stops : Stops) :
    (g.endpoint context stops v.id).findings.map Finding.topic =
      (g.endpointOfReference context stops id).findings.map Finding.topic := by
  obtain ⟨hvalue, htopics⟩ := resolve_of_alias found read fresh
  rw [endpoint_eq_of_resolve found]
  simp only [hvalue, List.tail_cons]
  rw [topics_findingsBeside htopics]
  cases hid : g.find? id with
  | some w => rw [endpointOfReference_eq_of_resolve hid]
  | none =>
      rw [resolve_of_unknown hid, endpointOfReference, hid]
      rfl

/-- **An alias has the endpoint of a reference.**  Let a variable be read as an alias that does not
lead back to it.  Wherever walks stop, it has the endpoint of a reference to what the alias names,
and what is noted on the way is about the same.  So a token of the variable has the value and the
endpoint of a property that is bound to what the alias names. -/
theorem endpoint_of_alias :
    (∀ stops,
      (g.endpoint context stops v.id).value = (g.endpointOfReference context stops id).value ∧
      (g.endpoint context stops v.id).findings.map Finding.topic =
        (g.endpointOfReference context stops id).findings.map Finding.topic) ∧
    ∀ p : Pipeline, p.graph = g →
      (p.bind context p.options.tokens id).value =
        ((p.token context v).value.value,
          ⟨id, g.pathOf id, (p.token context v).value.endpoint⟩) := by
  refine ⟨fun stops => ⟨value_endpoint_of_alias found read fresh stops,
    topics_endpoint_of_alias found read fresh stops⟩, ?_⟩
  rintro p rfl
  simp only [Pipeline.bind, Pipeline.token, value, Logged.value_bind, Logged.value_pure,
    value_endpoint_of_alias found read fresh, (resolve_of_alias found read fresh).1]

end

end DesignTokens.Graph

namespace DesignTokens.Sample

/-- The title refers to the heading.  At the large breakpoint both come into the circle of heading
and body, which has no primitive; at the small one both stop at the primitive behind the body. -/
theorem endpoint_of_title :
    (titled.entry? { breakpoint := some ⟨"lg"⟩ } title = some (.alias heading.id) ∧
      (titled.resolve { breakpoint := some ⟨"lg"⟩ } heading.id).value =
        ⟨.unresolved .circularReference, [heading.id, body.id]⟩ ∧
      (titled.endpoint { breakpoint := some ⟨"lg"⟩ } ⟨.primitives, "Component/"⟩ title.id).value =
        none ∧
      (titled.endpointOfReference { breakpoint := some ⟨"lg"⟩ } ⟨.primitives, "Component/"⟩
        heading.id).value = none) ∧
    (titled.entry? { breakpoint := some ⟨"sm"⟩ } title = some (.alias heading.id) ∧
      (titled.endpoint { breakpoint := some ⟨"sm"⟩ } ⟨.primitives, "Component/"⟩ title.id).value =
        some ⟨.primitive, sixteen.id, "Size/16", "16"⟩ ∧
      (titled.endpointOfReference { breakpoint := some ⟨"sm"⟩ } ⟨.primitives, "Component/"⟩
        heading.id).value = some ⟨.primitive, sixteen.id, "Size/16", "16"⟩) := by
  have found : titled.find? title.id = some title := by decide +kernel
  have hlarge : titled.entry? { breakpoint := some ⟨"lg"⟩ } title =
      some (.alias heading.id) := by decide +kernel
  have hsmall : titled.entry? { breakpoint := some ⟨"sm"⟩ } title =
      some (.alias heading.id) := by decide +kernel
  have hcircle : (titled.resolve { breakpoint := some ⟨"lg"⟩ } heading.id).value =
      ⟨.unresolved .circularReference, [heading.id, body.id]⟩ := by decide +kernel
  have hway : (titled.resolve { breakpoint := some ⟨"sm"⟩ } heading.id).value.chain =
      [heading.id, body.id, sixteen.id] := by decide +kernel
  obtain ⟨hcircular, -⟩ := Graph.endpoint_of_alias found hlarge (by rw [hcircle]; decide)
  obtain ⟨hopen, -⟩ := Graph.endpoint_of_alias found hsmall (by rw [hway]; decide)
  have hnone : (titled.endpoint { breakpoint := some ⟨"lg"⟩ } ⟨.primitives, "Component/"⟩
      title.id).value = none := by decide +kernel
  have hstop : (titled.endpoint { breakpoint := some ⟨"sm"⟩ } ⟨.primitives, "Component/"⟩
      title.id).value = some ⟨.primitive, sixteen.id, "Size/16", "16"⟩ := by decide +kernel
  exact ⟨⟨hlarge, hcircle, hnone, (hcircular _).1.symm.trans hnone⟩,
    hsmall, hstop, (hopen _).1.symm.trans hstop⟩

end DesignTokens.Sample
