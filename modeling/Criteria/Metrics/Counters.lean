import Criteria.Keyed
import Criteria.Metrics.Event

set_option autoImplicit false

namespace Criteria

def Count.max : Nat := 0xffffffffffffffff

/-- Adds to a count, which stays at the maximum. -/
def Count.add (count n : Nat) : Nat := Nat.min (count + n) Count.max

structure Totals where
  plansMade : Nat := 0
  planFields : Nat := 0
  cacheHits : Nat := 0
  conditionsBuilt : Nat := 0
  conditionsEmpty : Nat := 0
  updatesBuilt : Nat := 0
  updateColumns : Nat := 0
  inputErrors : Nat := 0
  schemaErrors : Nat := 0
  valueErrors : Nat := 0
  panicsRecovered : Nat := 0
deriving DecidableEq

structure TypeCounts where
  plansMade : Nat := 0
  cacheHits : Nat := 0
  conditionsBuilt : Nat := 0
  conditionsEmpty : Nat := 0
  updatesBuilt : Nat := 0
  updateColumns : Nat := 0
deriving DecidableEq

structure Counters where
  totals : Totals
  types : Keyed TypeCounts

namespace Counters

def zero : Counters := ⟨{}, Keyed.empty⟩

/-- How an event changes the totals. A recovered panic is counted by its own event, so a failure on
the internal side is not counted again. -/
def addTotals (t : Totals) : Event → Totals
  | .planned _ fields =>
    { t with plansMade := Count.add t.plansMade 1, planFields := Count.add t.planFields fields }
  | .cacheHit _ => { t with cacheHits := Count.add t.cacheHits 1 }
  | .conditionBuilt _ empty =>
    { t with
      conditionsBuilt := Count.add t.conditionsBuilt 1
      conditionsEmpty := Count.add t.conditionsEmpty empty.toNat }
  | .assignmentsBuilt _ columns =>
    { t with
      updatesBuilt := Count.add t.updatesBuilt 1
      updateColumns := Count.add t.updateColumns columns }
  | .failed .input => { t with inputErrors := Count.add t.inputErrors 1 }
  | .failed .schema => { t with schemaErrors := Count.add t.schemaErrors 1 }
  | .failed .value => { t with valueErrors := Count.add t.valueErrors 1 }
  | .failed .internal => t
  | .panicRecovered => { t with panicsRecovered := Count.add t.panicsRecovered 1 }

def typeChange : Event → Option (String × (TypeCounts → TypeCounts))
  | .planned type _ =>
    some (type, fun t => { t with plansMade := Count.add t.plansMade 1 })
  | .cacheHit type =>
    some (type, fun t => { t with cacheHits := Count.add t.cacheHits 1 })
  | .conditionBuilt type empty =>
    some (type, fun t =>
      { t with
        conditionsBuilt := Count.add t.conditionsBuilt 1
        conditionsEmpty := Count.add t.conditionsEmpty empty.toNat })
  | .assignmentsBuilt type columns =>
    some (type, fun t =>
      { t with
        updatesBuilt := Count.add t.updatesBuilt 1
        updateColumns := Count.add t.updateColumns columns })
  | .failed _ => none
  | .panicRecovered => none

def apply (c : Counters) (event : Event) : Counters :=
  { totals := addTotals c.totals event
    types :=
      match typeChange event with
      | some (type, change) => c.types.alter type fun old => change (old.getD {})
      | none => c.types }

def applyAll (c : Counters) (events : List Event) : Counters := events.foldl apply c

end Counters

end Criteria
