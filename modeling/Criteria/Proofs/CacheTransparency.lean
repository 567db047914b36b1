import Criteria.Session.Host
import Mathlib.Data.List.Forall2

/-!
Caches are not observable in results. A cache is sound when every plan it stores is the plan of its
type; every step keeps the caches of a host sound, so a call answers as if each plan were made anew,
whatever was stored before it, in the middle of it or by a call that failed.

Only what reports on the caches themselves differs: their sizes, the counters and the events.
-/

set_option autoImplicit false

namespace Criteria

namespace PlanCache

def Sound (s : Schema) (c : PlanCache) : Prop :=
  ∀ type plan, (type, plan) ∈ c.stored → s.plan type = .ok plan

variable {s : Schema} {c : PlanCache}

theorem sound_of_stored_eq_nil (h : c.stored = []) : c.Sound s := by
  intro type plan hmem
  simp [h] at hmem

theorem mem_stored_of_find? {type : TypeId} {plan : Plan} (h : c.find? type = some plan) :
    (type, plan) ∈ c.stored := by
  obtain ⟨before, after, heq, -⟩ := List.lookup_eq_some_iff.1 h
  simp [heq]

theorem Sound.plan_of_find? (hc : c.Sound s) {type : TypeId} {plan : Plan}
    (h : c.find? type = some plan) : s.plan type = .ok plan :=
  hc type plan (mem_stored_of_find? h)

theorem Sound.store (hc : c.Sound s) {type : TypeId} {plan : Plan} (h : s.plan type = .ok plan) :
    (c.store type plan).Sound s := by
  intro t p hmem
  unfold PlanCache.store at hmem
  split at hmem
  · rcases List.mem_append.1 hmem with hold | hnew
    · exact hc t p hold
    · obtain ⟨rfl, rfl⟩ := Prod.mk.inj (List.mem_singleton.1 hnew)
      exact h
  · exact hc t p hmem

theorem resolve_cases (s : Schema) (type : TypeId) (c : PlanCache) :
    (∃ plan, c.find? type = some plan ∧ c.enabled = true ∧
      c.resolve s type = ⟨.ok plan, c, [.cacheHit (s.nameOf type)]⟩) ∨
    (∃ plan, s.plan type = .ok plan ∧
      c.resolve s type = ⟨.ok plan, c.store type plan, [.planned (s.nameOf type) plan.size]⟩) ∨
    (∃ e, s.plan type = .error e ∧ c.resolve s type = ⟨.error e, c, []⟩) := by
  unfold resolve
  split
  · rename_i plan hfound
    by_cases he : c.enabled
    · exact .inl ⟨plan, by simpa [he] using hfound, he, rfl⟩
    · simp [he] at hfound
  · cases hplan : s.plan type with
    | ok plan => exact .inr (.inl ⟨plan, rfl, rfl⟩)
    | error e => exact .inr (.inr ⟨e, rfl, rfl⟩)

end PlanCache

namespace CacheStep

variable {α : Type} {s : Schema}

/-- On every sound cache the step has the result `fresh`, and the cache is sound after it. -/
structure Transparent (s : Schema) (step : CacheStep α) (fresh : Except Error α) : Prop where
  result : ∀ c : PlanCache, c.Sound s → (step c).result = fresh
  state : ∀ c : PlanCache, c.Sound s → (step c).state.Sound s

theorem transparent_resolve (s : Schema) (type : TypeId) :
    Transparent s (PlanCache.resolve s type) (s.plan type) := by
  constructor
  · intro c hc
    obtain ⟨plan, hfind, -, h⟩ | ⟨plan, hplan, h⟩ | ⟨e, hplan, h⟩ := PlanCache.resolve_cases s type c
    · rw [h, hc.plan_of_find? hfind]
    · rw [h, hplan]
    · rw [h, hplan]
  · intro c hc
    obtain ⟨plan, -, -, h⟩ | ⟨plan, hplan, h⟩ | ⟨e, -, h⟩ := PlanCache.resolve_cases s type c
    · rw [h]; exact hc
    · rw [h]; exact hc.store hplan
    · rw [h]; exact hc

/-- The cache changes with every question, so the induction is over the questions, for all sound
caches at once. -/
theorem transparent_runIn (x : Lookup α) : Transparent s (x.runIn s) (x.run s.plan) := by
  induction x with
  | done a => exact ⟨fun _ _ => rfl, fun _ hc => hc⟩
  | fail e => exact ⟨fun _ _ => rfl, fun _ hc => hc⟩
  | ask type next ih =>
    have hresolve := transparent_resolve s type
    constructor
    · intro c hc
      have hresult := hresolve.result c hc
      simp only [Lookup.runIn, Lookup.run, hresult]
      cases s.plan type with
      | ok plan => exact (ih plan).result _ (hresolve.state c hc)
      | error e => rfl
    · intro c hc
      have hresult := hresolve.result c hc
      simp only [Lookup.runIn, hresult]
      cases s.plan type with
      | ok plan => exact (ih plan).state _ (hresolve.state c hc)
      | error e => exact hresolve.state c hc

theorem Transparent.reporting {step : CacheStep α} {fresh : Except Error α}
    (h : Transparent s step fresh) (event : α → Event) :
    Transparent s (CacheStep.reporting event step) fresh := by
  constructor
  · intro c hc
    rw [← h.result c hc]
    unfold CacheStep.reporting
    cases hr : (step c).result <;> simp [hr]
  · intro c hc
    have hstate := h.state c hc
    unfold CacheStep.reporting
    cases hr : (step c).result <;> simpa [hr] using hstate

theorem transparent_call_panicked (payload : Payload) :
    Transparent s (CacheStep.call (.panicked payload : Outcome (CacheStep α)))
      (.error payload.recover) :=
  ⟨fun _ _ => rfl, fun _ hc => hc⟩

theorem Transparent.call {step : CacheStep α} {fresh : Except Error α}
    (h : Transparent s step fresh) : Transparent s (CacheStep.call (.returned step)) fresh := by
  constructor
  · intro c hc
    rw [← h.result c hc]
    unfold CacheStep.call
    cases hr : (step c).result <;> simp [hr]
  · intro c hc
    have hstate := h.state c hc
    unfold CacheStep.call
    cases hr : (step c).result <;> simpa [hr] using hstate

end CacheStep

namespace Schema

def freshCondition (s : Schema) (input : Outcome Value) : Except Error (Option Condition) :=
  (input.map fun value => (Condition.ofValue value).run s.plan).settle

def freshUpdate (s : Schema) (dialect : Dialect) (input : Outcome Value) :
    Except Error Assignments :=
  (input.map fun value => (Assignments.ofValue dialect value).run s.plan).settle

theorem transparent_conditionCall (s : Schema) (input : Outcome Value) :
    CacheStep.Transparent s (s.conditionCall input) (s.freshCondition input) := by
  cases input with
  | returned value => exact ((CacheStep.transparent_runIn _).reporting _).call
  | panicked payload => exact CacheStep.transparent_call_panicked payload

theorem transparent_updateCall (s : Schema) (dialect : Dialect) (input : Outcome Value) :
    CacheStep.Transparent s (s.updateCall dialect input) (s.freshUpdate dialect input) := by
  cases input with
  | returned value => exact ((CacheStep.transparent_runIn _).reporting _).call
  | panicked payload => exact CacheStep.transparent_call_panicked payload

theorem transparent_planCall (s : Schema) (type : TypeId) :
    CacheStep.Transparent s (s.planCall type) (s.plan type) :=
  (CacheStep.transparent_resolve s type).call

end Schema

/-- The replies that a step may have: results are those of fresh plans, at every depth of scopes. What
is asked of a cache itself is left open, but a type that a cache contains has a plan. -/
inductive Step.AnswersFresh (s : Schema) : Step → Reply → Prop where
  | condition (session : Session) (input : Outcome Value) :
    AnswersFresh s (.condition session input) (.condition (s.freshCondition input))
  | update (session : Session) (input : Outcome Value) :
    AnswersFresh s (.update session input)
      (.update (s.freshUpdate session.config.dialect input))
  | plan (session : Session) (type : TypeId) :
    AnswersFresh s (.plan session type) (.plan (s.plan type))
  | resolve (cache : CacheId) (type : TypeId) :
    AnswersFresh s (.resolve cache type) (.resolved (s.plan type))
  | contains (cache : CacheId) (type : TypeId) (answer : Bool)
      (h : answer = true → ∃ plan, s.plan type = .ok plan) :
    AnswersFresh s (.contains cache type) (.contains answer)
  | status (cache : CacheId) (enabled : Bool) (size : Nat) :
    AnswersFresh s (.status cache) (.status enabled size)
  | clear (cache : CacheId) : AnswersFresh s (.clear cache) .nothing
  | report (r : Report) : AnswersFresh s .report (.report r)
  | reset : AnswersFresh s .reset .nothing
  | scope (steps : List Step) (replies : List Reply) (events : List Event)
      (h : List.Forall₂ (AnswersFresh s) steps replies) :
    AnswersFresh s (.scope steps) (.scope replies events)

inductive Action where
  | addCache (enabled : Bool)
  | openSession (config : Config)
  | perform (step : Step)

namespace Host

def actAll (h : Host) : List Action → List (Step × Reply) × Host
  | [] => ([], h)
  | .addCache enabled :: rest =>
    (h.addCache (if enabled then PlanCache.empty else PlanCache.disabled)).2.actAll rest
  | .openSession config :: rest => (h.openSession config).2.actAll rest
  | .perform step :: rest =>
    let (reply, next) := h.perform step
    let (calls, last) := next.actAll rest
    ((step, reply) :: calls, last)

structure Sound (s : Schema) (h : Host) : Prop where
  schema : h.schema = s
  caches : ∀ c ∈ h.caches, c.Sound s

variable {s : Schema} {h : Host}

theorem sound_start (s : Schema) : (start s).Sound s := by
  refine ⟨rfl, ?_⟩
  intro c hc
  obtain rfl := List.mem_singleton.1 hc
  exact PlanCache.sound_of_stored_eq_nil rfl

theorem Sound.of_caches_eq (hs : h.Sound s) {k : Host} (hschema : k.schema = h.schema)
    (hcaches : k.caches = h.caches) : k.Sound s :=
  ⟨hschema.trans hs.schema, by rw [hcaches]; exact hs.caches⟩

theorem Sound.cache (hs : h.Sound s) (id : CacheId) : (h.cache id).Sound s := by
  unfold Host.cache
  cases hid : h.caches[id]? with
  | none => exact PlanCache.sound_of_stored_eq_nil rfl
  | some c => exact hs.caches c (List.mem_of_getElem? hid)

theorem Sound.setCache (hs : h.Sound s) (id : CacheId) {c : PlanCache} (hc : c.Sound s)
    (observer : Observer) : { h with caches := h.caches.set id c, observer := observer }.Sound s := by
  refine ⟨hs.schema, ?_⟩
  intro d hd
  rcases List.mem_or_eq_of_mem_set hd with hold | rfl
  · exact hs.caches d hold
  · exact hc

theorem Sound.addCache (hs : h.Sound s) {c : PlanCache} (hc : c.stored = []) :
    (h.addCache c).2.Sound s := by
  refine ⟨hs.schema, ?_⟩
  intro d hd
  rcases List.mem_append.1 hd with hold | hnew
  · exact hs.caches d hold
  · obtain rfl := List.mem_singleton.1 hnew
    exact PlanCache.sound_of_stored_eq_nil hc

theorem Sound.openSession (hs : h.Sound s) (config : Config) : (h.openSession config).2.Sound s := by
  unfold Host.openSession
  split
  · exact hs
  · exact hs.addCache rfl

theorem Sound.runOn {α : Type} (hs : h.Sound s) {id : CacheId} {step : CacheStep α}
    {fresh result : Except Error α} {host : Host} (ht : CacheStep.Transparent s step fresh)
    (hrun : h.runOn id step = (result, host)) : result = fresh ∧ host.Sound s := by
  obtain ⟨rfl, rfl⟩ := Prod.mk.inj hrun
  exact ⟨ht.result _ (hs.cache id), hs.setCache id (ht.state _ (hs.cache id)) _⟩

/-- A step has a reply made from fresh plans and leaves all caches sound; so have all steps of a list,
each on the host that the steps before it left. -/
theorem sound_perform_performAll (s : Schema) :
    (∀ (h : Host) (step : Step), h.Sound s →
      step.AnswersFresh s (h.perform step).1 ∧ (h.perform step).2.Sound s) ∧
    (∀ (h : Host) (steps : List Step), h.Sound s →
      List.Forall₂ (Step.AnswersFresh s) steps (h.performAll steps).1 ∧
        (h.performAll steps).2.Sound s) := by
  refine Host.perform.mutual_induct _ _ ?condition ?update ?plan ?resolve ?contains ?status ?clear
    ?report ?reset ?scope ?done ?next
  case condition =>
    intro h session input result host hrun hs
    obtain rfl := hs.schema
    obtain ⟨rfl, hstate⟩ := hs.runOn (h.schema.transparent_conditionCall input) hrun
    rw [Host.perform, hrun]
    exact ⟨.condition session input, hstate⟩
  case update =>
    intro h session input result host hrun hs
    obtain rfl := hs.schema
    obtain ⟨rfl, hstate⟩ := hs.runOn (h.schema.transparent_updateCall session.config.dialect input) hrun
    rw [Host.perform, hrun]
    exact ⟨.update session input, hstate⟩
  case plan =>
    intro h session type result host hrun hs
    obtain rfl := hs.schema
    obtain ⟨rfl, hstate⟩ := hs.runOn (h.schema.transparent_planCall type) hrun
    rw [Host.perform, hrun]
    exact ⟨.plan session type, hstate⟩
  case resolve =>
    intro h id type result host hrun hs
    obtain rfl := hs.schema
    obtain ⟨rfl, hstate⟩ := hs.runOn (CacheStep.transparent_resolve h.schema type) hrun
    rw [Host.perform, hrun]
    exact ⟨.resolve id type, hstate⟩
  case contains =>
    intro h id type hs
    rw [Host.perform]
    refine ⟨.contains id type _ ?_, hs⟩
    intro hcontains
    obtain ⟨plan, hfind⟩ := Option.isSome_iff_exists.1 hcontains
    exact ⟨plan, (hs.cache id).plan_of_find? hfind⟩
  case status =>
    intro h id hs
    rw [Host.perform]
    exact ⟨.status id _ _, hs⟩
  case clear =>
    intro h id hs
    rw [Host.perform]
    exact ⟨.clear id, hs.setCache id (PlanCache.sound_of_stored_eq_nil rfl) h.observer⟩
  case report =>
    intro h hs
    rw [Host.perform]
    exact ⟨.report _, hs⟩
  case reset =>
    intro h hs
    rw [Host.perform]
    exact ⟨.reset, hs.of_caches_eq rfl rfl⟩
  case scope =>
    intro h steps sink replies inner hrun ih hs
    obtain ⟨hreplies, hinner⟩ := ih (hs.of_caches_eq rfl rfl)
    rw [hrun] at hreplies hinner
    rw [Host.perform, hrun]
    exact ⟨.scope steps replies _ hreplies, hinner.of_caches_eq rfl rfl⟩
  case done =>
    intro h hs
    rw [Host.performAll]
    exact ⟨.nil, hs⟩
  case next =>
    intro h step steps reply next hstep replies last hsteps ihstep ihsteps hs
    obtain ⟨hreply, hnext⟩ := ihstep hs
    rw [hstep] at hreply hnext
    obtain ⟨hreplies, hlast⟩ := ihsteps hnext
    rw [hsteps] at hreplies hlast
    rw [Host.performAll, hstep]
    simp only [hsteps]
    exact ⟨.cons hreply hreplies, hlast⟩

theorem Sound.actAll (hs : h.Sound s) (actions : List Action) :
    (∀ call ∈ (h.actAll actions).1, call.1.AnswersFresh s call.2) ∧
      (h.actAll actions).2.Sound s := by
  induction actions generalizing h with
  | nil => exact ⟨by simp [Host.actAll], hs⟩
  | cons action rest ih =>
    cases action with
    | addCache enabled => exact ih (hs.addCache (by cases enabled <;> rfl))
    | openSession config => exact ih (hs.openSession config)
    | perform step =>
      obtain ⟨hreply, hnext⟩ := (sound_perform_performAll s).1 h step hs
      obtain ⟨hcalls, hlast⟩ := ih hnext
      refine ⟨?_, hlast⟩
      intro call hcall
      rcases List.mem_cons.1 hcall with rfl | hcall
      · exact hreply
      · exact hcalls call hcall

def after (s : Schema) (actions : List Action) : Host := ((start s).actAll actions).2

theorem sound_cache_after (s : Schema) (actions : List Action) (id : CacheId) :
    ((after s actions).cache id).Sound s :=
  ((sound_start s).actAll actions).2.cache id

/-- In every run every step is answered from fresh plans, and every plan stored at its end is the
plan of its type. -/
theorem actAll_answersFresh (s : Schema) (actions : List Action) :
    (∀ call ∈ ((start s).actAll actions).1, call.1.AnswersFresh s call.2) ∧
      ∀ c ∈ (after s actions).caches, ∀ type plan, (type, plan) ∈ c.stored →
        s.plan type = .ok plan := by
  obtain ⟨hcalls, hlast⟩ := (sound_start s).actAll actions
  exact ⟨hcalls, hlast.caches⟩

end Host

end Criteria
