import DesignTokens.Format.Output
import DesignTokens.Sink.Basic
import DesignTokens.Sink.Storage

/-!
# Document sinks

A document sink writes each output to a storage, as a document and a line break.
-/

namespace DesignTokens

structure DocumentSink (ω : Type) where
  name : String
  storage : ω

namespace DocumentSink

variable {ω : Type} [Storage ω]

/-- Write an output and flush the storage. -/
def emit (output : Output) (sink : DocumentSink ω) : Except Error Unit × DocumentSink ω :=
  match Storage.writeAll output.pieces sink.storage with
  | (.error problem, storage) => (.error (.unwritten problem), { sink with storage })
  | (.ok (), storage) => match Storage.write "\n" storage with
    | (.error problem, storage) => (.error (.storage problem), { sink with storage })
    | (.ok (), storage) =>
      let (result, storage) := Storage.flush storage
      (result.mapError .storage, { sink with storage })

instance : Sink (DocumentSink ω) := ⟨name, emit⟩

end DocumentSink

end DesignTokens
