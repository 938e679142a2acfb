import DesignTokens.Proofs.Pipeline.Policy
import DesignTokens.Proofs.Sink.Registration

/-!
# Delivery to the registered sinks

An output goes to the sinks in the order in which their names were first registered, and it goes no
further than to the first sink that fails (`deliver_to_registered`).

Which sinks are called, and in what order, does not show in the sinks afterwards: a sink may fail
and stay as it was.  So the loops are stated once more for calls in any monad (`Sink.deliverIn`,
`Pipeline.runAndDeliverIn`).  If each call is noted before it is made, whatever a note does, then
the notes are those of the list `Sink.calls`, one after the other, and what is returned is what the
loop returns without notes (`Sink.deliverIn_noting`).
-/

namespace DesignTokens

/-- A call of a sink: the name it is registered under, the sink as it stands, and the output. -/
structure Call (σ : Type) where
  name : String
  sink : σ
  output : Output

/-- The call of a registered sink. -/
def Call.of {σ : Type} (output : Output) (entry : String × σ) : Call σ :=
  ⟨entry.1, entry.2, output⟩

/-! ## Loops with notes -/

namespace Sink

variable {σ : Type} {m : Type → Type} [Monad m]

/-- The loop over the sinks, up to the first that fails, for calls in any monad. -/
def deliverIn (call : String → σ → m (Except Error Unit × σ)) :
    List (String × σ) → m (Except Error Unit × List (String × σ))
  | [] => return (.ok (), [])
  | (registered, sink) :: rest => do
    let (result, sink) ← call registered sink
    match result with
    | .error cause => return (.error (.sink registered cause), (registered, sink) :: rest)
    | .ok () => do
      let (result, rest) ← deliverIn call rest
      return (result, (registered, sink) :: rest)

variable [Sink σ]

/-- Note a call, then make it. -/
def noting (note : Call σ → m Unit) (output : Output) (name : String) (sink : σ) :
    m (Except Error Unit × σ) := do
  note ⟨name, sink, output⟩
  return emit output sink

/-- The calls that hand an output to sinks, up to the first that fails. -/
def calls (output : Output) : List (String × σ) → List (Call σ)
  | [] => []
  | (name, sink) :: rest =>
    ⟨name, sink, output⟩ :: match (emit output sink).1 with
      | .ok () => calls output rest
      | .error _ => []

section

variable {output : Output} {name : String} {sink : σ} {cause : Error} (rest : List (String × σ))

theorem calls_cons_of_ok (h : (emit output sink).1 = .ok ()) :
    calls output ((name, sink) :: rest) = ⟨name, sink, output⟩ :: calls output rest := by
  rw [calls, h]

theorem calls_cons_of_error (h : (emit output sink).1 = .error cause) :
    calls output ((name, sink) :: rest) = [⟨name, sink, output⟩] := by
  rw [calls, h]

theorem deliverTo_cons_of_ok (h : (emit output sink).1 = .ok ()) :
    deliverTo output ((name, sink) :: rest) = ((deliverTo output rest).1,
      (name, (emit output sink).2) :: (deliverTo output rest).2) := by
  simp only [deliverTo, h]

theorem deliverTo_cons_of_error (h : (emit output sink).1 = .error cause) :
    deliverTo output ((name, sink) :: rest) =
      (.error (.sink name cause), (name, (emit output sink).2) :: rest) := by
  simp only [deliverTo, h]

end

/-- The loop makes exactly the listed calls, in order, and notes do not change what it returns. -/
theorem deliverIn_noting [LawfulMonad m] (note : Call σ → m Unit) (output : Output)
    (entries : List (String × σ)) :
    deliverIn (noting note output) entries = do
      (calls output entries).forM note
      return deliverTo output entries := by
  induction entries with
  | nil => simp [deliverIn, calls, deliverTo]
  | cons entry rest ih =>
      obtain ⟨name, sink⟩ := entry
      cases hemit : (emit output sink).1 with
      | error cause =>
          simp [deliverIn, noting, calls_cons_of_error rest hemit,
            deliverTo_cons_of_error rest hemit, hemit]
      | ok =>
          simp [deliverIn, noting, calls_cons_of_ok rest hemit, deliverTo_cons_of_ok rest hemit,
            hemit, ih]

/-! ## Where a delivery stops -/

/-- A registered sink after a call. -/
def handed (output : Output) (entry : String × σ) : String × σ := (entry.1, (emit output entry.2).2)

/-- What a delivery of an output to sinks has to come to, whether all of them take it or one of them
is the first to fail. -/
structure Delivery (output : Output) (entries : List (String × σ)) (calls : List (Call σ))
    (result : Except Error Unit) (after : List (String × σ)) : Prop where
  calls_prefix : calls <+: entries.map (Call.of output)
  all : (∀ entry ∈ entries, (emit output entry.2).1 = .ok ()) →
    calls = entries.map (Call.of output) ∧ result = .ok () ∧ after = entries.map (handed output)
  first : ∀ taken name sink rest cause, entries = taken ++ (name, sink) :: rest →
    (∀ entry ∈ taken, (emit output entry.2).1 = .ok ()) → (emit output sink).1 = .error cause →
      calls = (taken ++ [(name, sink)]).map (Call.of output) ∧
        result = .error (.sink name cause) ∧
        after = (taken ++ [(name, sink)]).map (handed output) ++ rest

variable {output : Output} {taken : List (String × σ)}

theorem calls_append (h : ∀ entry ∈ taken, (emit output entry.2).1 = .ok ())
    (rest : List (String × σ)) :
    calls output (taken ++ rest) = taken.map (Call.of output) ++ calls output rest := by
  induction taken with
  | nil => rfl
  | cons entry taken ih =>
      obtain ⟨hentry, htaken⟩ := List.forall_mem_cons.mp h
      rw [List.cons_append, calls_cons_of_ok _ hentry, ih htaken]
      rfl

theorem deliverTo_append (h : ∀ entry ∈ taken, (emit output entry.2).1 = .ok ())
    (rest : List (String × σ)) :
    deliverTo output (taken ++ rest) = ((deliverTo output rest).1,
      taken.map (handed output) ++ (deliverTo output rest).2) := by
  induction taken with
  | nil => rfl
  | cons entry taken ih =>
      obtain ⟨hentry, htaken⟩ := List.forall_mem_cons.mp h
      rw [List.cons_append, deliverTo_cons_of_ok _ hentry, ih htaken]
      rfl

private theorem calls_isPrefix (output : Output) (entries : List (String × σ)) :
    calls output entries <+: entries.map (Call.of output) := by
  induction entries with
  | nil => exact List.prefix_rfl
  | cons entry rest ih =>
      obtain ⟨name, sink⟩ := entry
      rw [List.map_cons]
      cases hemit : (emit output sink).1 with
      | error cause =>
          rw [calls_cons_of_error rest hemit]
          exact ⟨rest.map (Call.of output), rfl⟩
      | ok =>
          rw [calls_cons_of_ok rest hemit]
          exact (List.prefix_cons_inj _).mpr ih

private theorem delivery_deliverTo (output : Output) (entries : List (String × σ)) :
    Delivery output entries (calls output entries) (deliverTo output entries).1
      (deliverTo output entries).2 where
  calls_prefix := calls_isPrefix output entries
  all := by
    intro h
    have hcalls := calls_append h []
    have hdelivered := deliverTo_append h []
    simp only [List.append_nil, calls, deliverTo] at hcalls hdelivered
    exact ⟨hcalls, by rw [hdelivered], by rw [hdelivered]⟩
  first := by
    rintro taken name sink rest cause rfl htaken hfailed
    rw [calls_append htaken, calls_cons_of_error rest hfailed, deliverTo_append htaken,
      deliverTo_cons_of_error rest hfailed]
    simp [Call.of, handed]

end Sink

/-! ## Deliveries and runs -/

namespace Registry

variable {σ : Type} [Sink σ]

/-- The calls that hand an output to the sinks of a registry. -/
def callsOf (r : Registry σ) (output : Output) : List (Call σ) := Sink.calls output r.entries

end Registry

namespace Pipeline

variable {σ : Type} {m : Type → Type} [Monad m]

/-- Run, then hand the output to sinks, for calls in any monad. -/
def runAndDeliverIn (p : Pipeline) (call : Output → String → σ → m (Except Error Unit × σ))
    (entries : List (String × σ)) : m (Except Error Output × List (String × σ)) :=
  match p.run with
  | .error e => return (.error e, entries)
  | .ok output => do
    let (result, entries) ← Sink.deliverIn (call output) entries
    return (result.map fun _ => output, entries)

variable [Sink σ]

/-- The calls of a run and the delivery of its output. -/
def callsOf (p : Pipeline) (r : Registry σ) : List (Call σ) :=
  match p.run with
  | .error _ => []
  | .ok output => r.callsOf output

private theorem runAndDeliverIn_noting [LawfulMonad m] (p : Pipeline) (note : Call σ → m Unit)
    (r : Registry σ) :
    p.runAndDeliverIn (Sink.noting note) r.entries = do
      (p.callsOf r).forM note
      return ((p.runAndDeliver r).1, (p.runAndDeliver r).2.entries) := by
  unfold runAndDeliverIn callsOf runAndDeliver
  cases p.run with
  | error e => simp
  | ok output =>
      simp only [Sink.deliverIn_noting, bind_assoc, pure_bind]
      rfl

end Pipeline

variable {σ : Type} [Sink σ]

/-- **Delivery stops at the first sink that fails.**  Sinks that are registered one after the other
stand in the order in which their names first came, each name with the sink that came first; a sink
that is told it comes too late leaves no trace.  Whatever is noted before the calls, the notes are
those of `callsOf` in order, no sink is called twice, and the result is that of `deliver`.  Either
all sinks take the output, or those up to the first failure have had it, the sinks behind it are as
they were, and the error names the sink that failed and says why.  A run that fails calls no
sink. -/
theorem deliver_to_registered {before registered : Registry σ} {sinks : List σ}
    (hregistered : before.registerAll sinks = registered) (output : Output) :
    registered.names = (before.names ++ sinks.map Sink.name).eraseDups ∧
      (∀ name, registered.get? name =
        (before.get? name).or (sinks.find? fun sink => Sink.name sink == name)) ∧
      (∀ front sink rest, sinks = front ++ sink :: rest →
        (((before.registerAll front).registerSink sink).1 = .alreadyPresent ↔
          Sink.name sink ∈ before.names ++ front.map Sink.name) ∧
        (((before.registerAll front).registerSink sink).1 = .alreadyPresent →
          before.registerAll (front ++ rest) = registered)) ∧
      (∀ {m : Type → Type} [Monad m] [LawfulMonad m] (note : Call σ → m Unit),
        Sink.deliverIn (Sink.noting note output) registered.entries = do
          (registered.callsOf output).forM note
          return ((registered.deliver output).1, (registered.deliver output).2.entries)) ∧
      Sink.Delivery output registered.entries (registered.callsOf output)
        (registered.deliver output).1 (registered.deliver output).2.entries ∧
      ((registered.callsOf output).map Call.name).Nodup ∧
      (∀ name cause, (Error.sink name cause).message =
        "Sink " ++ Text.quote name ++ " failed: " ++ cause.message) ∧
      ∀ p : Pipeline,
        (∀ {m : Type → Type} [Monad m] [LawfulMonad m] (note : Call σ → m Unit),
          p.runAndDeliverIn (Sink.noting note) registered.entries = do
            (p.callsOf registered).forM note
            return ((p.runAndDeliver registered).1, (p.runAndDeliver registered).2.entries)) ∧
        (∀ e, p.run = .error e →
          p.callsOf registered = [] ∧ p.runAndDeliver registered = (.error e, registered)) ∧
        ∀ produced, p.run = .ok produced →
          p.callsOf registered = registered.callsOf produced ∧
            p.runAndDeliver registered = ((registered.deliver produced).1.map fun _ => produced,
              (registered.deliver produced).2) := by
  subst hregistered
  have hdelivery := Sink.delivery_deliverTo output (before.registerAll sinks).entries
  refine ⟨before.names_registerAll sinks, before.get?_registerAll sinks, ?dropped,
    fun note => Sink.deliverIn_noting note output _, hdelivery, ?once, fun _ _ => rfl, ?runs⟩
  case dropped =>
    rintro front sink rest rfl
    refine ⟨?_, fun h => (Registry.registerAll_of_alreadyPresent h).symm⟩
    rw [Registry.registerSink, Registry.register_eq_alreadyPresent_iff, Registry.names_registerAll,
      List.mem_eraseDups]
  case once =>
    -- the calls go to some of the registered sinks, and no two of these have one name
    have hnames := (hdelivery.calls_prefix.map Call.name).sublist
    rw [List.map_map] at hnames
    exact (before.registerAll sinks).distinct.sublist hnames
  case runs =>
    intro p
    refine ⟨fun note => p.runAndDeliverIn_noting note _, ?_, ?_⟩
    · intro e hrun
      simp only [Pipeline.callsOf, Pipeline.runAndDeliver, hrun, and_self]
    · intro produced hrun
      simp only [Pipeline.callsOf, Pipeline.runAndDeliver, hrun, and_self]

/-! ## A sink without room -/

namespace Sample

/-- A sink that counts what it is given, and fails if it has no room. -/
structure Tally where
  name : String
  hasRoom : Bool := true
  count : Nat := 0
  deriving DecidableEq

instance : Sink Tally where
  name := Tally.name
  emit _ tally :=
    (if tally.hasRoom then .ok () else .error (.storage .full),
      { tally with count := tally.count + 1 })

/-- The third comes too late for its name. -/
def tallies : List Tally :=
  [{ name := "json" }, { name := "css", hasRoom := false }, { name := "json", count := 7 },
    { name := "memory" }]

def registeredTallies : Registry Tally := Registry.empty.registerAll tallies

theorem delivery_of_tallies :
    registeredTallies.names = ["json", "css", "memory"] ∧
      (registeredTallies.callsOf {}).map Call.name = ["json", "css"] ∧
      (registeredTallies.deliver {}).1 = .error (.sink "css" (.storage .full)) ∧
      (registeredTallies.deliver {}).2.entries.map (fun entry => entry.2.count) = [1, 1, 0] ∧
      strict.callsOf registeredTallies = [] := by
  have hregistered : Registry.empty.registerAll tallies = registeredTallies := rfl
  obtain ⟨hnames, -, -, -, delivery, -, -, hruns⟩ := deliver_to_registered hregistered {}
  obtain ⟨hcalls, hresult, hafter⟩ := delivery.first [("json", { name := "json" })] "css"
    { name := "css", hasRoom := false } [("memory", { name := "memory" })] (.storage .full)
    (by decide) (by simp [Sink.emit]) rfl
  have hfails : strict.run.isOk = false := by decide +kernel
  refine ⟨hnames.trans (by decide), ?_, hresult, ?_, ?_⟩
  · rw [hcalls]
    rfl
  · rw [hafter]
    rfl
  · cases hrun : strict.run with
    | ok produced =>
        rw [hrun] at hfails
        cases hfails
    | error e => exact ((hruns strict).2.1 e hrun).1

end Sample

end DesignTokens
