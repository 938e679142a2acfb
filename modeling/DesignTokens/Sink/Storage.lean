import DesignTokens.Error

/-!
# Storage

A place for text, which is written piece by piece.  A piece is stored as a whole or not at all, and
the pieces before one that fails stay.
-/

namespace DesignTokens

/-- Stores text. -/
class Storage (ω : Type) where
  write : String → ω → Except StorageProblem Unit × ω
  flush : ω → Except StorageProblem Unit × ω

/-- Store pieces in order, up to the first that fails. -/
def Storage.writeAll {ω : Type} [Storage ω] : List String → ω → Except StorageProblem Unit × ω
  | [], storage => (.ok (), storage)
  | piece :: rest, storage =>
    match write piece storage with
    | (.ok (), storage) => writeAll rest storage
    | (.error problem, storage) => (.error problem, storage)

/-- Storage in memory. -/
structure Buffer where
  text : String := ""
  /-- How many bytes there is room for, if room is short. -/
  capacity : Option Nat := none
  canFlush : Bool := true

instance : Storage Buffer where
  write piece buffer :=
    let size := buffer.text.utf8ByteSize + piece.utf8ByteSize
    if buffer.capacity.all fun room => size ≤ room then
      (.ok (), { buffer with text := buffer.text ++ piece })
    else (.error .full, buffer)
  flush buffer := (if buffer.canFlush then .ok () else .error .flushFailed, buffer)

end DesignTokens
