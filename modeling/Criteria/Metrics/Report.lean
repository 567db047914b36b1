import Criteria.Metrics.Counters

set_option autoImplicit false

namespace Criteria

structure TypeSummary where
  name : String
  plansMade : Nat
  cacheHits : Nat
  conditionsBuilt : Nat
  conditionsEmpty : Nat
  updatesBuilt : Nat
  averageColumns : Float

structure Report where
  counters : Counters
  types : List TypeSummary

def TypeCounts.averageColumns (t : TypeCounts) : Float :=
  if t.updatesBuilt = 0 then 0.0
  else (UInt64.ofNat t.updateColumns).toFloat / (UInt64.ofNat t.updatesBuilt).toFloat

def TypeCounts.summary (name : String) (t : TypeCounts) : TypeSummary :=
  { name := name, plansMade := t.plansMade, cacheHits := t.cacheHits,
    conditionsBuilt := t.conditionsBuilt, conditionsEmpty := t.conditionsEmpty,
    updatesBuilt := t.updatesBuilt, averageColumns := t.averageColumns }

def TypeSummary.busyness (t : TypeSummary) : Nat := t.conditionsBuilt + t.updatesBuilt

/-- The busier type comes first; equally busy ones are ordered by name. -/
def TypeSummary.before (a b : TypeSummary) : Bool :=
  b.busyness < a.busyness || (a.busyness = b.busyness && a.name ≤ b.name)

namespace Counters

def summaries (c : Counters) : List TypeSummary :=
  (c.types.toList.map fun (name, counts) => counts.summary name).mergeSort TypeSummary.before

def report (c : Counters) : Report := ⟨c, c.summaries⟩

end Counters

end Criteria
