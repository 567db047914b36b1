import Criteria.Metrics.Counters
import Criteria.Recovery

/-!
Where events go. Events are counted, unless a sink is installed: then the innermost sink receives
them and nothing is counted. A sink is installed for the length of a scope, and however the scope is
left, the slot then holds again what it held before.
-/

set_option autoImplicit false

namespace Criteria

abbrev SinkId := Nat

structure Observer where
  counters : Counters
  slot : Option SinkId
  received : List (SinkId × Event)

namespace Observer

def start : Observer := ⟨Counters.zero, none, []⟩

def record (o : Observer) (event : Event) : Observer :=
  match o.slot with
  | some sink => { o with received := o.received ++ [(sink, event)] }
  | none => { o with counters := o.counters.apply event }

def recordAll (o : Observer) (events : List Event) : Observer := events.foldl record o

def reset (o : Observer) : Observer := { o with counters := Counters.zero }

def receivedBy (o : Observer) (sink : SinkId) : List Event :=
  o.received.filterMap fun (owner, event) => if owner = sink then some event else none

def install (o : Observer) (sink : SinkId) : Observer := { o with slot := some sink }

def restore (o before : Observer) : Observer := { o with slot := before.slot }

end Observer

/-- A computation that reports to an observer and may panic; what it has reported stays reported. -/
abbrev Observed (α : Type) := Observer → Outcome α × Observer

namespace Observed

variable {α β : Type}

def emit (event : Event) : Observed Unit := fun o => (.returned (), o.record event)

def panic (payload : Payload) : Observed α := fun o => (.panicked payload, o)

def andThen (x : Observed α) (f : α → Observed β) : Observed β := fun o =>
  match x o with
  | (.returned a, after) => f a after
  | (.panicked payload, after) => (.panicked payload, after)

def within (sink : SinkId) (x : Observed α) : Observed α := fun o =>
  let (outcome, after) := x (o.install sink)
  (outcome, after.restore o)

def guard (x : Observed (Except Error α)) : Observed (Except Error α) := fun o =>
  let (outcome, after) := x o
  (.returned outcome.settle, after.recordAll outcome.recovery)

end Observed

end Criteria
