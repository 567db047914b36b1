import Criteria.Assignment.OfRecord
import Criteria.Condition.OfRecord
import Criteria.Config
import Criteria.Metrics.Observer
import Criteria.Plan.Cache

set_option autoImplicit false

namespace Criteria

abbrev CacheStep (α : Type) := PlanCache → Traced PlanCache α

namespace CacheStep

variable {α : Type}

def reporting (event : α → Event) (step : CacheStep α) : CacheStep α := fun c =>
  let t := step c
  match t.result with
  | .ok a => { t with events := t.events ++ [event a] }
  | .error _ => t

/-- A call behind the panic boundary; a failure is reported once, by the side that failed. -/
def call (input : Outcome (CacheStep α)) : CacheStep α := fun c =>
  let t : Traced PlanCache α :=
    match input with
    | .returned step => step c
    | .panicked payload => ⟨.error payload.recover, c, [.panicRecovered]⟩
  match t.result with
  | .ok _ => t
  | .error e => { t with events := t.events ++ [.failed e.classOf] }

end CacheStep

def Schema.inputName (s : Schema) (value : Value) : String :=
  match value.bare.record? with
  | some r => s.nameOf r.type
  | none => "<unknown>"

namespace Schema

def conditionStep (s : Schema) (value : Value) : CacheStep (Option Condition) :=
  CacheStep.reporting (fun c => .conditionBuilt (s.inputName value) c.isNone)
    ((Condition.ofValue value).runIn s)

def updateStep (s : Schema) (dialect : Dialect) (value : Value) : CacheStep Assignments :=
  CacheStep.reporting (fun m => .assignmentsBuilt (s.inputName value) m.size)
    ((Assignments.ofValue dialect value).runIn s)

end Schema

namespace Outcome

variable {α β : Type}

def map (f : α → β) : Outcome α → Outcome β
  | .returned a => .returned (f a)
  | .panicked payload => .panicked payload

end Outcome

namespace Schema

def conditionCall (s : Schema) (input : Outcome Value) : CacheStep (Option Condition) :=
  CacheStep.call (input.map s.conditionStep)

def updateCall (s : Schema) (dialect : Dialect) (input : Outcome Value) : CacheStep Assignments :=
  CacheStep.call (input.map (s.updateStep dialect))

def planCall (s : Schema) (type : TypeId) : CacheStep Plan :=
  CacheStep.call (.returned (PlanCache.resolve s type))

end Schema

end Criteria
