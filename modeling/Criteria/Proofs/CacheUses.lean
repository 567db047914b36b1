import Criteria.Proofs.SessionEvents

set_option autoImplicit false

namespace Criteria

namespace Event

def isPlanned : Event → Bool
  | .planned _ _ => true
  | _ => false

def isCacheHit : Event → Bool
  | .cacheHit _ => true
  | _ => false

def isResolution (e : Event) : Bool := e.isPlanned || e.isCacheHit

end Event

theorem PlanCache.isResolution_of_mem_resolve {s : Schema} {type : TypeId} {c : PlanCache} {e : Event}
    (h : e ∈ (c.resolve s type).events) : e.isResolution = true := by
  obtain ⟨plan, -, -, hresolve⟩ | ⟨plan, -, hresolve⟩ | ⟨error, -, hresolve⟩ := resolve_cases s type c
  · rw [hresolve] at h
    obtain rfl := List.mem_singleton.1 h
    rfl
  · rw [hresolve] at h
    obtain rfl := List.mem_singleton.1 h
    rfl
  · rw [hresolve] at h
    cases h

theorem Lookup.isResolution_of_mem_runIn {α : Type} {s : Schema} {c : PlanCache} (x : Lookup α)
    {e : Event} (h : e ∈ (x.runIn s c).events) : e.isResolution = true := by
  induction x generalizing c with
  | done a => cases h
  | fail error => cases h
  | ask type next ih =>
    simp only [runIn] at h
    split at h
    · rcases List.mem_append.1 h with h | h
      · exact PlanCache.isResolution_of_mem_resolve h
      · exact ih _ h
    · exact PlanCache.isResolution_of_mem_resolve h

inductive CacheUse where
  | condition (input : Outcome Value)
  | update (dialect : Dialect) (input : Outcome Value)
  | plan (type : TypeId)
  | resolve (type : TypeId)
  | clear

namespace CacheUse

def after (s : Schema) : CacheUse → PlanCache → PlanCache
  | .condition input, c => (s.conditionCall input c).state
  | .update dialect input, c => (s.updateCall dialect input c).state
  | .plan type, c => (s.planCall type c).state
  | .resolve type, c => (c.resolve s type).state
  | .clear, c => c.clear

def events (s : Schema) : CacheUse → PlanCache → List Event
  | .condition input, c => (s.conditionCall input c).events
  | .update dialect input, c => (s.updateCall dialect input c).events
  | .plan type, c => (s.planCall type c).events
  | .resolve type, c => (c.resolve s type).events
  | .clear, _ => []

end CacheUse

namespace Step

def use? : Step → Option (CacheId × CacheUse)
  | .condition session input => some (session.cache, .condition input)
  | .update session input => some (session.cache, .update session.config.dialect input)
  | .plan session type => some (session.cache, .plan type)
  | .resolve cache type => some (cache, .resolve type)
  | .clear cache => some (cache, .clear)
  | _ => none

/-- The use of a given cache, if the step itself makes one. -/
def ownUse (id : CacheId) (step : Step) : List CacheUse :=
  match step.use? with
  | some (cache, use) => if cache = id then [use] else []
  | none => []

mutual

def usesOf (id : CacheId) : Step → List CacheUse
  | .scope steps => allUsesOf id steps
  | step => step.ownUse id

def allUsesOf (id : CacheId) : List Step → List CacheUse
  | [] => []
  | step :: steps => usesOf id step ++ allUsesOf id steps

end

theorem usesOf_eq {step : Step} (hscope : ∀ steps, step ≠ .scope steps) (id : CacheId) :
    step.usesOf id = step.ownUse id := by
  cases step with
  | scope steps => exact absurd rfl (hscope steps)
  | _ => rfl

end Step

def Action.usesOf (id : CacheId) : Action → List CacheUse
  | .perform step => step.usesOf id
  | _ => []

namespace Host

variable {h k : Host} {id : CacheId} {step : Step}

def afterUse (h : Host) (id : CacheId) (use : CacheUse) : Host :=
  { h with
    caches := h.caches.set id (use.after h.schema (h.cache id))
    observer := h.observer.recordAll (use.events h.schema (h.cache id)) }

theorem perform_of_use {use : CacheUse} (huse : step.use? = some (id, use)) :
    (h.perform step).2 = h.afterUse id use := by
  cases step <;> simp only [Step.use?, Option.some.injEq, Prod.mk.injEq, reduceCtorEq] at huse
  all_goals
    obtain ⟨rfl, rfl⟩ := huse
    rw [Host.perform]
    rfl

theorem perform_of_idle (huse : step.use? = none) (hscope : ∀ steps, step ≠ .scope steps) :
    (h.perform step).2 =
      { h with observer := match step with | .reset => h.observer.reset | _ => h.observer } := by
  cases step <;> simp only [Step.use?, reduceCtorEq] at huse
  case scope => exact absurd rfl (hscope _)
  all_goals rw [Host.perform]

theorem perform_scope (h : Host) (steps : List Step) :
    (h.perform (.scope steps)).2 =
      let inner := (performAll
        { h with observer := h.observer.install h.sinks, sinks := h.sinks + 1 } steps).2
      { inner with observer := inner.observer.restore h.observer } := by
  rw [Host.perform]

theorem performAll_cons (h : Host) (step : Step) (steps : List Step) :
    (h.performAll (step :: steps)).2 = ((h.perform step).2.performAll steps).2 := by
  rw [Host.performAll]

theorem cache_set (hid : id < h.caches.length) (other : CacheId) (c : PlanCache) (observer : Observer) :
    ({ h with caches := h.caches.set other c, observer := observer } : Host).cache id =
      if other = id then c else h.cache id := by
  unfold Host.cache
  rw [List.getElem?_set]
  split
  · rename_i heq
    subst heq
    simp [hid]
  · rfl

/-- The cache `id` of `k` is that of `h` after the uses. -/
structure Follows (id : CacheId) (uses : List CacheUse) (h k : Host) : Prop where
  schema : k.schema = h.schema
  inside : id < k.caches.length
  cache : k.cache id = uses.foldl (fun c use => use.after h.schema c) (h.cache id)

theorem Follows.refl (hid : id < h.caches.length) : Follows id [] h h := ⟨rfl, hid, rfl⟩

theorem Follows.trans {uses more : List CacheUse} {l : Host} (hk : Follows id uses h k)
    (hl : Follows id more k l) : Follows id (uses ++ more) h l := by
  refine ⟨hl.schema.trans hk.schema, hl.inside, ?_⟩
  rw [hl.cache, hk.cache, hk.schema, List.foldl_append]

theorem follows_perform_performAll (id : CacheId) :
    (∀ (step : Step) (h : Host), id < h.caches.length →
      Follows id (step.usesOf id) h (h.perform step).2) ∧
    ∀ (steps : List Step) (h : Host), id < h.caches.length →
      Follows id (Step.allUsesOf id steps) h (h.performAll steps).2 := by
  refine Step.usesOf.mutual_induct _ _ ?scope ?single ?nil ?cons
  case single =>
    intro step hscope h hid
    rw [Step.usesOf_eq hscope, Step.ownUse]
    cases huse : step.use? with
    | none =>
      rw [perform_of_idle huse hscope]
      exact ⟨rfl, hid, rfl⟩
    | some owned =>
      obtain ⟨other, use⟩ := owned
      rw [perform_of_use huse]
      refine ⟨rfl, by simpa [afterUse] using hid, ?_⟩
      rw [afterUse, cache_set hid]
      by_cases heq : other = id
      · simp [heq]
      · simp [heq]
  case scope =>
    intro steps ih h hid
    have hinner := ih { h with observer := h.observer.install h.sinks, sinks := h.sinks + 1 } hid
    rw [perform_scope]
    exact ⟨hinner.schema, hinner.inside, hinner.cache⟩
  case nil =>
    intro h hid
    rw [Host.performAll]
    exact .refl hid
  case cons =>
    intro step steps ihstep ihsteps h hid
    rw [performAll_cons]
    exact (ihstep h hid).trans (ihsteps _ (ihstep h hid).inside)

theorem follows_addCache (hid : id < h.caches.length) (c : PlanCache) :
    Follows id [] h (h.addCache c).2 := by
  refine ⟨rfl, ?_, ?_⟩
  · exact Nat.lt_of_lt_of_le hid (by simp [addCache])
  · change ((h.caches ++ [c])[id]?).getD PlanCache.disabled = _
    rw [List.getElem?_append_left hid]
    rfl

theorem follows_openSession (hid : id < h.caches.length) (config : Config) :
    Follows id [] h (h.openSession config).2 := by
  unfold openSession
  split
  · exact .refl hid
  · exact follows_addCache hid PlanCache.disabled

theorem follows_actAll (actions : List Action) (hid : id < h.caches.length) :
    Follows id (actions.flatMap (Action.usesOf id)) h (h.actAll actions).2 := by
  induction actions generalizing h with
  | nil => exact .refl hid
  | cons action rest ih =>
    cases action with
    | addCache enabled => exact (follows_addCache hid _).trans (ih (follows_addCache hid _).inside)
    | openSession config =>
      exact (follows_openSession hid config).trans (ih (follows_openSession hid config).inside)
    | perform step =>
      have hstep := (follows_perform_performAll id).1 step h hid
      exact hstep.trans (ih hstep.inside)

end Host

end Criteria
