import Criteria.Proofs.WalkQuestions

set_option autoImplicit false

namespace Criteria

namespace PlanCache

def StoresIfEnabled (c : PlanCache) : Prop := c.enabled = false → c.stored = []

variable {s : Schema} {c : PlanCache} {type : TypeId}

theorem StoresIfEnabled.store (h : c.StoresIfEnabled) (type : TypeId) (plan : Plan) :
    (c.store type plan).StoresIfEnabled := by
  unfold PlanCache.store
  split
  · rename_i henabled
    intro hdisabled
    exact Bool.noConfusion (henabled.symm.trans hdisabled)
  · exact h

theorem StoresIfEnabled.clear (c : PlanCache) : c.clear.StoresIfEnabled := fun _ => rfl

/-- A stored type is answered from the cache. -/
theorem resolve_of_contains (hc : c.Sound s) (hstores : c.StoresIfEnabled)
    (h : c.contains type = true) :
    ∃ plan, s.plan type = .ok plan ∧
      c.resolve s type = ⟨.ok plan, c, [.cacheHit (s.nameOf type)]⟩ := by
  obtain ⟨plan, hfind⟩ := Option.isSome_iff_exists.1 h
  refine ⟨plan, hc.plan_of_find? hfind, ?_⟩
  cases henabled : c.enabled with
  | true => simp [resolve, henabled, hfind]
  | false => simp [find?, hstores henabled] at hfind

/-- Any other type is planned. -/
theorem resolve_of_not_contains (h : c.contains type = false) :
    c.resolve s type =
      match s.plan type with
      | .ok plan => ⟨.ok plan, c.store type plan, [.planned (s.nameOf type) plan.size]⟩
      | .error e => ⟨.error e, c, []⟩ := by
  have hfind : c.find? type = none := by simpa [contains] using h
  unfold resolve
  rw [hfind]
  cases c.enabled <;> rfl

end PlanCache

namespace Schema

inductive Resolutions (s : Schema) : PlanCache → List TypeId → List Event → PlanCache → Prop where
  | done (c : PlanCache) : Resolutions s c [] [] c
  | hit {c last : PlanCache} {type : TypeId} {types : List TypeId} {events : List Event}
      (hstored : c.contains type = true) (hrest : Resolutions s c types events last) :
    Resolutions s c (type :: types) (.cacheHit (s.nameOf type) :: events) last
  | planned {c last : PlanCache} {type : TypeId} {types : List TypeId} {events : List Event}
      {plan : Plan} (hnew : c.contains type = false) (hplan : s.plan type = .ok plan)
      (hrest : Resolutions s (c.store type plan) types events last) :
    Resolutions s c (type :: types) (.planned (s.nameOf type) plan.size :: events) last

variable {s : Schema}

/-- A computation on a cache reports the resolutions of the types that it asks for. -/
theorem resolutions_runIn {α : Type} (x : Lookup α) {c : PlanCache} (hc : c.Sound s)
    (hstores : c.StoresIfEnabled) :
    s.Resolutions c (x.asked s.plan) (x.runIn s c).events (x.runIn s c).state := by
  induction x generalizing c with
  | done a => exact .done c
  | fail e => exact .done c
  | ask type next ih =>
    cases hcontains : c.contains type with
    | true =>
      obtain ⟨plan, hplan, hresolve⟩ := PlanCache.resolve_of_contains hc hstores hcontains
      simp only [Lookup.runIn, Lookup.asked, hresolve, hplan]
      exact .hit hcontains (ih plan hc hstores)
    | false =>
      have hresolve := PlanCache.resolve_of_not_contains (s := s) hcontains
      cases hplan : s.plan type with
      | ok plan =>
        rw [hplan] at hresolve
        simp only [Lookup.runIn, Lookup.asked, hresolve, hplan]
        exact .planned hcontains hplan (ih plan (hc.store hplan) (hstores.store type plan))
      | error e =>
        -- The question fails: the computation ends here and nothing is stored or reported.
        rw [hplan] at hresolve
        simp only [Lookup.runIn, Lookup.asked, hresolve, hplan]
        exact .done c

def closing {α : Type} (built : α → List Event) : Except Error α → List Event
  | .ok a => built a
  | .error e => [.failed e.classOf]

end Schema

namespace CacheStep

variable {α : Type} {s : Schema}

theorem call_reporting (event : α → Event) (step : CacheStep α) (c : PlanCache) :
    CacheStep.call (.returned (CacheStep.reporting event step)) c =
      { step c with
        events := (step c).events ++ Schema.closing (fun a => [event a]) (step c).result } := by
  unfold CacheStep.call CacheStep.reporting
  cases hr : (step c).result <;> simp [hr, Schema.closing]

theorem call_returned (step : CacheStep α) (c : PlanCache) :
    CacheStep.call (.returned step) c =
      { step c with events := (step c).events ++ Schema.closing (fun _ => []) (step c).result } := by
  unfold CacheStep.call
  cases hr : (step c).result with
  | ok a =>
    simp only [hr, Schema.closing, List.append_nil]
    rw [← hr]
  | error e => simp [hr, Schema.closing]

/-- What is kept by storing a plan is kept by a computation on a cache. -/
theorem runIn_keeps {P : PlanCache → Prop} (hstore : ∀ c type plan, P c → P (c.store type plan))
    (x : Lookup α) {c : PlanCache} (hc : P c) : P (x.runIn s c).state := by
  induction x generalizing c with
  | done a => exact hc
  | fail e => exact hc
  | ask type next ih =>
    obtain ⟨plan, -, -, h⟩ | ⟨plan, -, h⟩ | ⟨e, -, h⟩ := PlanCache.resolve_cases s type c
    · simp only [Lookup.runIn, h]
      exact ih plan hc
    · simp only [Lookup.runIn, h]
      exact ih plan (hstore c type plan hc)
    · simp only [Lookup.runIn, h]
      exact hc

end CacheStep

theorem Lookup.runIn_ask_done (s : Schema) (type : TypeId) (c : PlanCache) :
    (Lookup.ask type .done).runIn s c = PlanCache.resolve s type c := by
  obtain ⟨plan, -, -, h⟩ | ⟨plan, -, h⟩ | ⟨e, -, h⟩ := PlanCache.resolve_cases s type c
  all_goals simp [Lookup.runIn, h]

namespace Schema

theorem conditionCall_returned (s : Schema) (value : Value) (c : PlanCache) :
    s.conditionCall (.returned value) c =
      let t := (Condition.ofValue value).runIn s c
      { t with events := t.events ++
          closing (fun built => [.conditionBuilt (s.inputName value) built.isNone]) t.result } :=
  CacheStep.call_reporting _ _ c

theorem updateCall_returned (s : Schema) (dialect : Dialect) (value : Value) (c : PlanCache) :
    s.updateCall dialect (.returned value) c =
      let t := (Assignments.ofValue dialect value).runIn s c
      { t with events := t.events ++
          closing (fun m => [.assignmentsBuilt (s.inputName value) m.size]) t.result } :=
  CacheStep.call_reporting _ _ c

theorem planCall_eq (s : Schema) (type : TypeId) (c : PlanCache) :
    s.planCall type c =
      let t := (Lookup.ask type .done).runIn s c
      { t with events := t.events ++ closing (fun _ => []) t.result } := by
  rw [Lookup.runIn_ask_done]
  exact CacheStep.call_returned _ c

variable {s : Schema} {P : PlanCache → Prop} {c : PlanCache}

theorem conditionCall_keeps (hstore : ∀ c type plan, P c → P (c.store type plan))
    (input : Outcome Value) (hc : P c) : P (s.conditionCall input c).state := by
  cases input with
  | returned value =>
    rw [conditionCall_returned]
    exact CacheStep.runIn_keeps hstore _ hc
  | panicked payload => exact hc

theorem updateCall_keeps (hstore : ∀ c type plan, P c → P (c.store type plan)) (dialect : Dialect)
    (input : Outcome Value) (hc : P c) : P (s.updateCall dialect input c).state := by
  cases input with
  | returned value =>
    rw [updateCall_returned]
    exact CacheStep.runIn_keeps hstore _ hc
  | panicked payload => exact hc

theorem planCall_keeps (hstore : ∀ c type plan, P c → P (c.store type plan)) (type : TypeId)
    (hc : P c) : P (s.planCall type c).state := by
  rw [planCall_eq]
  exact CacheStep.runIn_keeps hstore _ hc

end Schema

namespace Host

variable {s : Schema} {h : Host} {P : PlanCache → Prop}

theorem cache_of_caches (hdisabled : P PlanCache.disabled) (hcaches : ∀ c ∈ h.caches, P c)
    (id : CacheId) : P (h.cache id) := by
  unfold Host.cache
  cases hid : h.caches[id]? with
  | none => exact hdisabled
  | some c => exact hcaches c (List.mem_of_getElem? hid)

theorem caches_set (hcaches : ∀ c ∈ h.caches, P c) (id : CacheId) {c : PlanCache} (hc : P c) :
    ∀ d ∈ h.caches.set id c, P d := by
  intro d hd
  rcases List.mem_or_eq_of_mem_set hd with hold | rfl
  · exact hcaches d hold
  · exact hc

/-- What holds of a cache that is off and is kept by storing and clearing holds of all caches of a host
after a step, and after steps, if it held before. -/
theorem caches_perform_performAll (hdisabled : P PlanCache.disabled)
    (hstore : ∀ c type plan, P c → P (c.store type plan)) (hclear : ∀ c, P c → P c.clear) :
    (∀ (h : Host) (step : Step), (∀ c ∈ h.caches, P c) → ∀ c ∈ (h.perform step).2.caches, P c) ∧
    (∀ (h : Host) (steps : List Step), (∀ c ∈ h.caches, P c) →
      ∀ c ∈ (h.performAll steps).2.caches, P c) := by
  have hrunOn : ∀ {α : Type} {h : Host} {id : CacheId} {step : CacheStep α} {result : Except Error α}
      {host : Host}, (∀ c, P c → P (step c).state) → h.runOn id step = (result, host) →
      (∀ c ∈ h.caches, P c) → ∀ c ∈ host.caches, P c := by
    intro α h id step result host hkeeps hrun hcaches
    obtain ⟨rfl, rfl⟩ := Prod.mk.inj hrun
    exact caches_set hcaches id (hkeeps _ (cache_of_caches hdisabled hcaches id))
  -- Steps nest through scopes, so single steps and lists of steps are proved together.
  refine Host.perform.mutual_induct _ _ ?condition ?update ?plan ?resolve ?contains ?status ?clear
    ?report ?reset ?scope ?done ?next
  case condition =>
    intro h session input result host hrun hcaches
    rw [Host.perform, hrun]
    exact hrunOn (fun _ => Schema.conditionCall_keeps hstore input) hrun hcaches
  case update =>
    intro h session input result host hrun hcaches
    rw [Host.perform, hrun]
    exact hrunOn (fun _ => Schema.updateCall_keeps hstore _ input) hrun hcaches
  case plan =>
    intro h session type result host hrun hcaches
    rw [Host.perform, hrun]
    exact hrunOn (fun _ => Schema.planCall_keeps hstore type) hrun hcaches
  case resolve =>
    intro h id type result host hrun hcaches
    rw [Host.perform, hrun]
    refine hrunOn (fun c hc => ?_) hrun hcaches
    rw [← Lookup.runIn_ask_done]
    exact CacheStep.runIn_keeps hstore _ hc
  case contains =>
    intro h id type hcaches
    rwa [Host.perform]
  case status =>
    intro h id hcaches
    rwa [Host.perform]
  case clear =>
    intro h id hcaches
    rw [Host.perform]
    exact caches_set hcaches id (hclear _ (cache_of_caches hdisabled hcaches id))
  case report =>
    intro h hcaches
    rwa [Host.perform]
  case reset =>
    intro h hcaches
    rwa [Host.perform]
  case scope =>
    intro h steps sink replies inner hrun ih hcaches
    rw [Host.perform, hrun]
    rw [hrun] at ih
    exact ih hcaches
  case done =>
    intro h hcaches
    rwa [Host.performAll]
  case next =>
    intro h step steps reply next hstep replies last hsteps ihstep ihsteps hcaches
    rw [hstep] at ihstep
    rw [hsteps] at ihsteps
    rw [Host.performAll, hstep]
    simp only [hsteps]
    exact ihsteps (ihstep hcaches)

theorem caches_actAll (hempty : P PlanCache.empty) (hdisabled : P PlanCache.disabled)
    (hstore : ∀ c type plan, P c → P (c.store type plan)) (hclear : ∀ c, P c → P c.clear)
    (actions : List Action) (hcaches : ∀ c ∈ h.caches, P c) :
    ∀ c ∈ (h.actAll actions).2.caches, P c := by
  have hadd : ∀ {h : Host} {c : PlanCache}, P c → (∀ d ∈ h.caches, P d) →
      ∀ d ∈ (h.addCache c).2.caches, P d := by
    intro h c hc hcaches
    exact List.forall_mem_append.2 ⟨hcaches, List.forall_mem_singleton.2 hc⟩
  induction actions generalizing h with
  | nil => exact hcaches
  | cons action rest ih =>
    cases action with
    | addCache enabled =>
      refine ih (hadd ?_ hcaches)
      cases enabled with
      | true => exact hempty
      | false => exact hdisabled
    | openSession config =>
      refine ih ?_
      unfold Host.openSession
      split
      · exact hcaches
      · exact hadd hdisabled hcaches
    | perform step =>
      exact ih ((caches_perform_performAll hdisabled hstore hclear).1 h step hcaches)

theorem storesIfEnabled_cache_after (s : Schema) (actions : List Action) (id : CacheId) :
    ((after s actions).cache id).StoresIfEnabled := by
  have hdisabled : PlanCache.disabled.StoresIfEnabled := fun _ => rfl
  have hempty : PlanCache.empty.StoresIfEnabled := fun _ => rfl
  refine cache_of_caches hdisabled ?_ id
  exact caches_actAll hempty hdisabled (fun c type plan hc => hc.store type plan)
    (fun c _ => PlanCache.StoresIfEnabled.clear c) actions (List.forall_mem_singleton.2 hempty)

/-- A call reports the resolutions of types on its cache, and then how it ended. -/
def Reports (s : Schema) (h : Host) (id : CacheId) (types : List TypeId) (ending : List Event)
    (next : Host) : Prop :=
  ∃ resolved last, s.Resolutions (h.cache id) types resolved last ∧
    next = { h with
      caches := h.caches.set id last, observer := h.observer.recordAll (resolved ++ ending) }

theorem reports_runOn {α : Type} {id : CacheId} (hc : (h.cache id).Sound s)
    (hstores : (h.cache id).StoresIfEnabled) (x : Lookup α) (ending : Except Error α → List Event)
    {step : CacheStep α}
    (hstep : ∀ c, step c =
      { x.runIn s c with events := (x.runIn s c).events ++ ending (x.runIn s c).result }) :
    h.Reports s id (x.asked s.plan) (ending (h.runOn id step).1) (h.runOn id step).2 := by
  refine ⟨_, _, Schema.resolutions_runIn x hc hstores, ?_⟩
  simp only [Host.runOn, hstep]

end Host

theorem Schema.inputName_of_normalize (s : Schema) {value : Value} {r : Record}
    (h : value.normalize = .ok r) : s.inputName value = s.nameOf r.type := by
  unfold Value.normalize at h
  unfold Schema.inputName
  split at h
  · rename_i type fields hbare
    obtain rfl := Except.ok.inj h
    rw [hbare]
    rfl
  · cases h

theorem Condition.exists_normalize_of_run {answer : TypeId → Except Error Plan} {value : Value}
    {built : Option Condition} (h : (ofValue value).run answer = .ok built) :
    ∃ r, value.normalize = .ok r := by
  cases hr : value.normalize with
  | ok r => exact ⟨r, rfl⟩
  | error e => cases (run_ofValue_error answer hr).symm.trans h

theorem Assignments.exists_normalize_of_run {answer : TypeId → Except Error Plan} {dialect : Dialect}
    {value : Value} {m : Assignments} (h : (ofValue dialect value).run answer = .ok m) :
    ∃ r, value.normalize = .ok r := by
  cases hr : value.normalize with
  | ok r => exact ⟨r, rfl⟩
  | error e =>
    rw [ofValue, hr] at h
    cases h

/-- A sink in force receives the events in order, and nothing else happens. -/
theorem Observer.recordAll_of_slot {o : Observer} {sink : SinkId} (h : o.slot = some sink)
    (events : List Event) :
    o.recordAll events = { o with received := o.received ++ events.map (sink, ·) } := by
  induction events generalizing o with
  | nil => simp [Observer.recordAll]
  | cons event events ih =>
    have hrecord : o.record event = { o with received := o.received ++ [(sink, event)] } := by
      simp only [Observer.record, h]
    change (o.record event).recordAll events = _
    rw [hrecord]
    exact (ih (o := { o with received := o.received ++ [(sink, event)] }) h).trans (by simp)

namespace Host

open Schema

/-- What calls report, whatever happened on the host before and wherever events go. A builder reports
the types that its snapshot asks for before the first failure, then its end; a panic is reported with
its class alone. A sink receives just these events. -/
theorem call_events (s : Schema) (actions : List Action) (o : Observer) (session : Session) :
    let h : Host := { after s actions with observer := o }
    (∀ value, ∃ visits result, Lists (Before (s.Failures value) (s.Visits value)) visits ∧
      (h.perform (.condition session (.returned value))).1 = .condition result ∧
      h.Reports s session.cache (visits.map (·.2))
        (closing (fun built => [.conditionBuilt (s.inputName value) built.isNone]) result)
        (h.perform (.condition session (.returned value))).2 ∧
      ∀ built, result = .ok built →
        ∃ r, value.normalize = .ok r ∧ s.inputName value = s.nameOf r.type) ∧
    (∀ value, ∃ types result,
      (types = match value.normalize with | .ok r => s.resolvable r.type | .error _ => []) ∧
      (h.perform (.update session (.returned value))).1 = .update result ∧
      h.Reports s session.cache types
        (closing (fun m => [.assignmentsBuilt (s.inputName value) m.size]) result)
        (h.perform (.update session (.returned value))).2 ∧
      ∀ m, result = .ok m → ∃ r, value.normalize = .ok r ∧ s.inputName value = s.nameOf r.type) ∧
    (∀ type, ∃ result, (h.perform (.plan session type)).1 = .plan result ∧
      h.Reports s session.cache (s.resolvable type) (closing (fun _ => []) result)
        (h.perform (.plan session type)).2) ∧
    (∀ payload,
      (h.perform (.condition session (.panicked payload))).1 = .condition (.error payload.recover) ∧
      h.Reports s session.cache [] [.panicRecovered, .failed payload.recover.classOf]
        (h.perform (.condition session (.panicked payload))).2 ∧
      (h.perform (.update session (.panicked payload))).1 = .update (.error payload.recover) ∧
      h.Reports s session.cache [] [.panicRecovered, .failed payload.recover.classOf]
        (h.perform (.update session (.panicked payload))).2) ∧
    ∀ sink events, o.slot = some sink →
      o.recordAll events = { o with received := o.received ++ events.map (sink, ·) } := by
  intro h
  have hschema : h.schema = s := ((sound_start s).actAll actions).2.schema
  have hc : (h.cache session.cache).Sound s := sound_cache_after s actions session.cache
  have hstores : (h.cache session.cache).StoresIfEnabled :=
    storesIfEnabled_cache_after s actions session.cache
  refine ⟨fun value => ?_, fun value => ?_, fun type => ?_, fun payload => ?_, ?_⟩
  · rw [Host.perform, hschema]
    obtain ⟨visits, hvisits, hasked⟩ := (Condition.walks_ofValue s value).asked
    have hreports := reports_runOn hc hstores _ _ (s.conditionCall_returned value)
    rw [hasked] at hreports
    refine ⟨visits, _, hvisits, rfl, hreports, fun built hbuilt => ?_⟩
    have hrun := (transparent_conditionCall s (.returned value)).result _ hc
    obtain ⟨r, hr⟩ := Condition.exists_normalize_of_run (hrun.symm.trans hbuilt)
    exact ⟨r, hr, s.inputName_of_normalize hr⟩
  · rw [Host.perform, hschema]
    have hreports := reports_runOn hc hstores _ _ (s.updateCall_returned session.config.dialect value)
    rw [Assignments.asked_ofValue] at hreports
    refine ⟨_, _, rfl, rfl, hreports, fun m hm => ?_⟩
    have hrun := (transparent_updateCall s session.config.dialect (.returned value)).result _ hc
    obtain ⟨r, hr⟩ := Assignments.exists_normalize_of_run (hrun.symm.trans hm)
    exact ⟨r, hr, s.inputName_of_normalize hr⟩
  · rw [Host.perform, hschema]
    have hreports := reports_runOn hc hstores _ _ (s.planCall_eq type)
    rw [asked_ask_done] at hreports
    exact ⟨_, rfl, hreports⟩
  · rw [Host.perform, Host.perform]
    exact ⟨rfl, ⟨[], _, .done _, rfl⟩, rfl, ⟨[], _, .done _, rfl⟩⟩
  · exact fun sink events hslot => Observer.recordAll_of_slot hslot events

/-- The search and its alternative are resolved, and the drafts of the alternative cannot be planned. -/
example : (searches.conditionCall (.returned nestedSearch) PlanCache.empty).events =
    [.planned "Search" 3, .cacheHit "Search", .failed .schema] := by
  cbv

end Host

end Criteria
