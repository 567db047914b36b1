import Criteria.Metrics.Event
import Criteria.Plan.Lookup
import Criteria.Plan.OfSchema

set_option autoImplicit false

namespace Criteria

/-- What a step leaves behind: its result, the state after it, and what it reported, in order. -/
structure Traced (σ α : Type) where
  result : Except Error α
  state : σ
  events : List Event

structure PlanCache where
  enabled : Bool
  stored : List (TypeId × Plan)

namespace PlanCache

def empty : PlanCache := ⟨true, []⟩

def disabled : PlanCache := ⟨false, []⟩

def find? (c : PlanCache) (type : TypeId) : Option Plan := c.stored.lookup type

def contains (c : PlanCache) (type : TypeId) : Bool := (c.find? type).isSome

theorem contains_iff {c : PlanCache} {type : TypeId} :
    c.contains type = true ↔ type ∈ c.stored.map (·.1) := by
  simp [contains, find?]

def size (c : PlanCache) : Nat := c.stored.length

def isEmpty (c : PlanCache) : Bool := c.stored.isEmpty

def clear (c : PlanCache) : PlanCache := { c with stored := [] }

def store (c : PlanCache) (type : TypeId) (plan : Plan) : PlanCache :=
  if c.enabled then { c with stored := c.stored ++ [(type, plan)] } else c

def resolve (s : Schema) (type : TypeId) (c : PlanCache) : Traced PlanCache Plan :=
  match if c.enabled then c.find? type else none with
  | some plan => ⟨.ok plan, c, [.cacheHit (s.nameOf type)]⟩
  | none =>
    match s.plan type with
    | .ok plan => ⟨.ok plan, c.store type plan, [.planned (s.nameOf type) plan.size]⟩
    | .error e => ⟨.error e, c, []⟩

end PlanCache

def Lookup.runIn {α : Type} (s : Schema) : Lookup α → PlanCache → Traced PlanCache α
  | .done a, c => ⟨.ok a, c, []⟩
  | .fail e, c => ⟨.error e, c, []⟩
  | .ask type next, c =>
    let answer := c.resolve s type
    match answer.result with
    | .ok plan =>
      let rest := (next plan).runIn s answer.state
      { rest with events := answer.events ++ rest.events }
    | .error e => ⟨.error e, answer.state, answer.events⟩

end Criteria
