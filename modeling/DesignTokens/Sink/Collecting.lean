import DesignTokens.Sink.Basic

/-!
# Collecting sinks

A collecting sink keeps every output that it is given.
-/

namespace DesignTokens

structure CollectingSink where
  name : String
  outputs : List Output := []

namespace CollectingSink

instance : Sink CollectingSink where
  name := name
  emit output sink := (.ok (), { sink with outputs := sink.outputs ++ [output] })

def last? (sink : CollectingSink) : Option Output := sink.outputs.getLast?

/-- The outputs, and the sink without them. -/
def take (sink : CollectingSink) : List Output × CollectingSink :=
  (sink.outputs, { sink with outputs := [] })

end CollectingSink

end DesignTokens
