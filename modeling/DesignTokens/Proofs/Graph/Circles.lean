import DesignTokens.Proofs.Graph.Chain
import DesignTokens.Proofs.Graph.Grounded

/-!
# Walks into a circle

In a context each variable leads to at most one other, so there is one way on from it.  If this way
comes to a circle it stays on it, and so does the way of each variable that it comes through
(`ReachesCircle.of_reflTransGen`).  If it does not, it ends at a variable that leads nowhere.

A walk cannot know the circle that it is on: it stops where it meets itself, which depends on where
it started.  What it comes to does not, because the variables that come to a circular reference are
those from which a circle is reached (`value_resolve_eq_circular_iff`).  So all variables of a chain
come to the same value, whether the chain ends in a circle or not.
-/

namespace DesignTokens.Graph

open Relation

variable {g : Graph} {context : Context} {id hop next : VariableId}

/-- A variable leads to another by the entry that a context reads. -/
def Leads (g : Graph) (context : Context) (id next : VariableId) : Prop :=
  g.target? context id = some next

instance : Decidable (g.Leads context id next) :=
  inferInstanceAs (Decidable (g.target? context id = some next))

/-- From a variable one comes to another that leads, over some variables or none, back to itself. -/
def ReachesCircle (g : Graph) (context : Context) (id : VariableId) : Prop :=
  ∃ hop, ReflTransGen (g.Leads context) id hop ∧ TransGen (g.Leads context) hop hop

theorem Leads.unique (h : g.Leads context id hop) (hnext : g.Leads context id next) :
    hop = next :=
  Option.some.inj (h.symm.trans hnext)

theorem Leads.exists_found (h : g.Leads context id next) : ∃ v, g.find? id = some v := by
  obtain ⟨entry, hentry, -⟩ := Option.bind_eq_some_iff.mp h
  obtain ⟨v, found, -⟩ := Option.bind_eq_some_iff.mp hentry
  exact ⟨v, found⟩

/-! ## The way to a circle -/

namespace ReachesCircle

/-- The way to a circle goes on, on the circle too. -/
theorem exists_next (h : g.ReachesCircle context id) :
    ∃ next, g.Leads context id next ∧ g.ReachesCircle context next := by
  obtain ⟨hop, hpath, hcircle⟩ := h
  cases hpath using ReflTransGen.head_induction_on with
  | refl =>
      obtain ⟨next, hnext, hback⟩ := TransGen.head'_iff.mp hcircle
      exact ⟨next, hnext, id, hback, hcircle⟩
  | head hnext hpath => exact ⟨_, hnext, hop, hpath, hcircle⟩

private theorem of_leads (h : g.ReachesCircle context id) (hnext : g.Leads context id next) :
    g.ReachesCircle context next := by
  obtain ⟨other, hother, hreaches⟩ := h.exists_next
  obtain rfl := hnext.unique hother
  exact hreaches

theorem of_reflTransGen (h : g.ReachesCircle context id)
    (hpath : ReflTransGen (g.Leads context) id hop) : g.ReachesCircle context hop := by
  induction hpath with
  | refl => exact h
  | tail _ hnext ih => exact ih.of_leads hnext

end ReachesCircle

/-! ## The end of a walk -/

theorem IsWalk.reflTransGen_of_mem {chain : Trail} (walk : g.IsWalk context id chain)
    (hhop : hop ∈ chain) : ReflTransGen (g.Leads context) id hop := by
  obtain ⟨rest, rfl, -⟩ := walk.exists_continues
  obtain ⟨front, behind, hchain⟩ := List.append_of_mem hhop
  have hlinked : ((front ++ [hop]) ++ behind).IsChain (g.Leads context) := by
    rw [List.append_assoc, List.singleton_append, ← hchain]
    exact walk.linked
  cases front with
  | nil =>
      rw [(List.cons.inj hchain).1]
  | cons first front =>
      rw [(List.cons.inj hchain).1]
      exact List.relationReflTransGen_of_exists_isChain_cons _ hlinked.left_of_append (by simp)

private theorem reflTransGen_of_mem_chain (hhop : hop ∈ (g.resolve context id).value.chain) :
    ReflTransGen (g.Leads context) id hop := by
  have resolves := resolves_resolve g context id
  generalize g.resolve context id = result at resolves hhop
  cases resolves with
  | absent unknown => cases hhop
  | walk walk hlast found ending => exact walk.reflTransGen_of_mem hhop

/-- Where a walk ends other than in a circle, nothing leads on to a variable. -/
theorem Ending.find?_eq_none {chain : Trail} {last : VariableId} {v : Variable}
    {result : Logged Value} (ending : g.Ending context chain v result)
    (hvalue : result.value ≠ .unresolved .circularReference) (found : g.find? last = some v)
    (hnext : g.Leads context last next) : g.find? next = none := by
  have hread := (target?_eq_some_iff found).mp hnext
  cases ending with
  | literal read => rw [hread] at read; cases read
  | empty read => rw [hread] at read; cases read
  | missing read unknown =>
      rw [hread] at read
      cases read
      exact unknown
  | circular read visited => exact absurd rfl hvalue

/-- The variables that come to a circular reference are those from which a circle is reached. -/
theorem value_resolve_eq_circular_iff :
    (g.resolve context id).value.value = .unresolved .circularReference ↔
      g.ReachesCircle context id := by
  have resolves := resolves_resolve g context id
  generalize g.resolve context id = result at resolves ⊢
  constructor
  · intro hvalue
    cases resolves with
    | absent unknown => cases hvalue
    | walk walk hlast found ending =>
        cases ending with
        | literal read =>
            have hreason := congrArg Value.reason? hvalue
            rw [Logged.value_pure, Literal.reason?_value] at hreason
            cases hreason
        | empty read => cases hvalue
        | missing read unknown => cases hvalue
        | circular read visited =>
            have hnext := (target?_eq_some_iff found).mpr read
            exact ⟨_, walk.reflTransGen_of_mem visited,
              walk.transGen_of_mem hlast hnext visited⟩
  · intro hreaches
    cases resolves with
    | absent unknown =>
        obtain ⟨next, hnext, -⟩ := hreaches.exists_next
        obtain ⟨v, found⟩ := hnext.exists_found
        rw [unknown] at found
        cases found
    | walk walk hlast found ending =>
        by_contra hvalue
        -- the way to the circle comes through the last variable of the walk, but does not go on
        have hlast := hreaches.of_reflTransGen
          (walk.reflTransGen_of_mem (List.mem_of_getLast? hlast))
        obtain ⟨next, hnext, hreaches⟩ := hlast.exists_next
        obtain ⟨after, hafter, -⟩ := hreaches.exists_next
        obtain ⟨v, hknown⟩ := hafter.exists_found
        rw [ending.find?_eq_none hvalue found hnext] at hknown
        cases hknown

/-! ## All variables of a chain -/

theorem value_resolve_eq_of_mem_chain (hhop : hop ∈ (g.resolve context id).value.chain) :
    (g.resolve context hop).value.value = (g.resolve context id).value.value := by
  by_cases hvalue : (g.resolve context id).value.value = .unresolved .circularReference
  · have hreaches := value_resolve_eq_circular_iff.mp hvalue
    rw [hvalue, value_resolve_eq_circular_iff]
    exact hreaches.of_reflTransGen (reflTransGen_of_mem_chain hhop)
  · obtain ⟨front, rest, -, hresolve⟩ := resolve_eq_of_mem_chain hvalue hhop
    rw [hresolve]

/-- **The variables of a chain agree.**  Each of them comes to the value that the first one comes
to, along the rest of the chain unless that ends in a circle; and it ends in a circle if there is
one to be reached, wherever the walk enters it. -/
theorem variables_of_chain_agree (g : Graph) (context : Context) (id : VariableId) :
    (∀ hop ∈ (g.resolve context id).value.chain,
      (g.resolve context hop).value.value = (g.resolve context id).value.value) ∧
    ((g.resolve context id).value.value ≠ .unresolved .circularReference →
      ∀ front hop rest, (g.resolve context id).value.chain = front ++ hop :: rest →
        (g.resolve context hop).value.chain = hop :: rest) ∧
    ((g.resolve context id).value.value = .unresolved .circularReference ↔
      ∃ hop, ReflTransGen (g.Leads context) id hop ∧ TransGen (g.Leads context) hop hop) := by
  refine ⟨fun hop hhop => value_resolve_eq_of_mem_chain hhop, ?_, value_resolve_eq_circular_iff⟩
  intro hvalue front hop rest hchain
  rw [resolve_eq_of_chain_eq hvalue hchain]

end DesignTokens.Graph

namespace DesignTokens.Sample

/-- At the large breakpoint the title leads into the circle of heading and body. -/
def title : Variable :=
  ⟨⟨"title"⟩, "Text/title", breakpoints.id, .float,
    Table.empty.insert ⟨"sm"⟩ (.alias heading.id)⟩

def titled : Graph :=
  ⟨.ofList [sizes, breakpoints], .ofList [sixteen, body, heading, title], [], []⟩

/-- From the body one gets around the circle in another order, and to the same value; at the small
breakpoint there is no circle, and the body goes along the rest of the way. -/
theorem variables_agree_below_title :
    (titled.resolve { breakpoint := some ⟨"lg"⟩ } title.id).value.chain =
        [title.id, heading.id, body.id] ∧
      (titled.resolve { breakpoint := some ⟨"lg"⟩ } title.id).value.value =
        .unresolved .circularReference ∧
      (titled.resolve { breakpoint := some ⟨"lg"⟩ } body.id).value.value =
        .unresolved .circularReference ∧
      (titled.resolve { breakpoint := some ⟨"lg"⟩ } body.id).value.chain =
        [body.id, heading.id] ∧
      (titled.resolve { breakpoint := some ⟨"sm"⟩ } title.id).value.value ≠
        .unresolved .circularReference ∧
      (titled.resolve { breakpoint := some ⟨"sm"⟩ } title.id).value.chain =
        [title.id, heading.id, body.id, sixteen.id] ∧
      (titled.resolve { breakpoint := some ⟨"sm"⟩ } body.id).value.chain =
        [body.id, sixteen.id] := by
  obtain ⟨hvalue, -, hcircle⟩ :=
    Graph.variables_of_chain_agree titled { breakpoint := some ⟨"lg"⟩ } title.id
  obtain ⟨-, hrest, -⟩ :=
    Graph.variables_of_chain_agree titled { breakpoint := some ⟨"sm"⟩ } title.id
  have hlarge : (titled.resolve { breakpoint := some ⟨"lg"⟩ } title.id).value.chain =
      [title.id, heading.id, body.id] := by decide +kernel
  have hsmall : (titled.resolve { breakpoint := some ⟨"sm"⟩ } title.id).value.chain =
      [title.id, heading.id, body.id, sixteen.id] := by decide +kernel
  have hopen : (titled.resolve { breakpoint := some ⟨"sm"⟩ } title.id).value.value ≠
      .unresolved .circularReference := by decide +kernel
  -- heading and body lead to each other
  have hcircular := hcircle.mpr ⟨heading.id, .single (by decide),
    .tail (.single (b := body.id) (by decide)) (by decide)⟩
  have hbody := hvalue body.id (by simp [hlarge])
  exact ⟨hlarge, hcircular, hbody.trans hcircular, by decide +kernel, hopen, hsmall,
    hrest hopen [title.id, heading.id] body.id [sixteen.id] hsmall⟩

end DesignTokens.Sample
