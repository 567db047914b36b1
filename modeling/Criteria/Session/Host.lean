import Criteria.Metrics.Report
import Criteria.Session.Basic

/-!
A host holds what sessions share: the schema, the plan caches and the observer. Sessions are opened
over the process-wide cache, over a private cache that keeps nothing, or over a cache that several
of them share. A script is a list of steps on a host; each step has a reply.
-/

set_option autoImplicit false

namespace Criteria

abbrev CacheId := Nat

structure Session where
  config : Config
  cache : CacheId
deriving DecidableEq

structure Host where
  schema : Schema
  caches : List PlanCache
  observer : Observer
  sinks : Nat

inductive Step where
  | condition (session : Session) (input : Outcome Value)
  | update (session : Session) (input : Outcome Value)
  | plan (session : Session) (type : TypeId)
  | resolve (cache : CacheId) (type : TypeId)
  | contains (cache : CacheId) (type : TypeId)
  | status (cache : CacheId)
  | clear (cache : CacheId)
  | report
  | reset
  | scope (steps : List Step)

inductive Reply where
  | condition (result : Except Error (Option Condition))
  | update (result : Except Error Assignments)
  | plan (result : Except Error Plan)
  | resolved (result : Except Error Plan)
  | contains (answer : Bool)
  | status (enabled : Bool) (size : Nat)
  | report (r : Report)
  | nothing
  | scope (replies : List Reply) (events : List Event)

namespace Host

def start (schema : Schema) : Host := ⟨schema, [PlanCache.empty], Observer.start, 0⟩

def addCache (h : Host) (cache : PlanCache) : CacheId × Host :=
  (h.caches.length, { h with caches := h.caches ++ [cache] })

/-- Opens a session over the process-wide cache, or over a private cache that keeps nothing when the
configuration disables caching. -/
def openSession (h : Host) (config : Config) : Session × Host :=
  if config.caching then (⟨config, 0⟩, h)
  else
    let (cache, host) := h.addCache PlanCache.disabled
    (⟨config, cache⟩, host)

def cache (h : Host) (id : CacheId) : PlanCache := h.caches[id]?.getD PlanCache.disabled

def runOn {α : Type} (h : Host) (id : CacheId) (step : CacheStep α) : Except Error α × Host :=
  let t := step (h.cache id)
  (t.result,
    { h with caches := h.caches.set id t.state, observer := h.observer.recordAll t.events })

mutual

def perform (h : Host) : Step → Reply × Host
  | .condition session input =>
    let (result, host) := h.runOn session.cache (h.schema.conditionCall input)
    (.condition result, host)
  | .update session input =>
    let (result, host) :=
      h.runOn session.cache (h.schema.updateCall session.config.dialect input)
    (.update result, host)
  | .plan session type =>
    let (result, host) := h.runOn session.cache (h.schema.planCall type)
    (.plan result, host)
  | .resolve id type =>
    let (result, host) := h.runOn id (PlanCache.resolve h.schema type)
    (.resolved result, host)
  | .contains id type => (.contains ((h.cache id).contains type), h)
  | .status id => (.status (h.cache id).enabled (h.cache id).size, h)
  | .clear id => (.nothing, { h with caches := h.caches.set id (h.cache id).clear })
  | .report => (.report h.observer.counters.report, h)
  | .reset => (.nothing, { h with observer := h.observer.reset })
  | .scope steps =>
    let sink := h.sinks
    let (replies, inner) :=
      performAll { h with observer := h.observer.install sink, sinks := sink + 1 } steps
    (.scope replies (inner.observer.receivedBy sink),
      { inner with observer := inner.observer.restore h.observer })

def performAll (h : Host) : List Step → List Reply × Host
  | [] => ([], h)
  | step :: steps =>
    let (reply, next) := perform h step
    let (replies, last) := performAll next steps
    (reply :: replies, last)

end

end Host

end Criteria
