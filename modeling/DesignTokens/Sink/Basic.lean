import DesignTokens.Pipeline.Run
import DesignTokens.Sink.Registry

/-!
# Sinks

A sink takes the outputs of runs: it generates code, writes a file, or keeps what it is given.
What a sink does with an output may fail and may change the sink even so.

`deliver` hands an output to the registered sinks in the order of their registration and stops at
the first that fails.
-/

namespace DesignTokens

/-- Takes outputs. -/
class Sink (σ : Type) where
  name : σ → String
  emit : Output → σ → Except Error Unit × σ

namespace Sink

variable {σ : Type} [Sink σ]

/-- Hand an output to sinks with their names, up to the first that fails. -/
def deliverTo (output : Output) : List (String × σ) → Except Error Unit × List (String × σ)
  | [] => (.ok (), [])
  | (registered, sink) :: rest =>
    let (result, sink) := emit output sink
    match result with
    | .error cause => (.error (.sink registered cause), (registered, sink) :: rest)
    | .ok () =>
      let (result, rest) := deliverTo output rest
      (result, (registered, sink) :: rest)

theorem names_deliverTo (output : Output) (entries : List (String × σ)) :
    (deliverTo output entries).2.map Prod.fst = entries.map Prod.fst := by
  induction entries with
  | nil => rfl
  | cons entry rest ih =>
    obtain ⟨registered, sink⟩ := entry
    simp only [deliverTo]
    split <;> simp_all

end Sink

namespace Registry

variable {σ : Type} [Sink σ]

/-- Register a sink under its own name. -/
def registerSink (sinks : Registry σ) (sink : σ) : Registration × Registry σ :=
  sinks.register (Sink.name sink) sink

/-- Hand an output to all sinks. -/
def deliver (sinks : Registry σ) (output : Output) : Except Error Unit × Registry σ :=
  ((Sink.deliverTo output sinks.entries).1,
    sinks.withEntries (Sink.deliverTo output sinks.entries).2 (Sink.names_deliverTo _ _))

end Registry

/-- Run, then hand the output to all sinks. -/
def Pipeline.runAndDeliver {σ : Type} [Sink σ] (p : Pipeline) (sinks : Registry σ) :
    Except Error Output × Registry σ :=
  match p.run with
  | .error e => (.error e, sinks)
  | .ok output =>
    let (result, sinks) := sinks.deliver output
    (result.map fun _ => output, sinks)

end DesignTokens
