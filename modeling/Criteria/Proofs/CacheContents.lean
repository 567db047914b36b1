import Criteria.Proofs.CacheUses

set_option autoImplicit false

namespace Criteria

structure Resolution where
  type : TypeId
  events : List Event

inductive Touch where
  | resolve (type : TypeId)
  | clear

def Lookup.questionsIn {α : Type} (s : Schema) : Lookup α → PlanCache → List TypeId
  | .done _, _ => []
  | .fail _, _ => []
  | .ask type next, c =>
    let answer := c.resolve s type
    match answer.result with
    | .ok plan => type :: (next plan).questionsIn s answer.state
    | .error _ => [type]

namespace CacheUse

def touches (s : Schema) : CacheUse → PlanCache → List Touch
  | .condition (.returned value), c => ((Condition.ofValue value).questionsIn s c).map .resolve
  | .update dialect (.returned value), c =>
    ((Assignments.ofValue dialect value).questionsIn s c).map .resolve
  | .condition (.panicked _), _ => []
  | .update _ (.panicked _), _ => []
  | .plan type, _ => [.resolve type]
  | .resolve type, _ => [.resolve type]
  | .clear, _ => [.clear]

def allTouches (s : Schema) : List CacheUse → PlanCache → List Touch
  | [], _ => []
  | use :: uses, c => use.touches s c ++ allTouches s uses (use.after s c)

def allEvents (s : Schema) : List CacheUse → PlanCache → List Event
  | [], _ => []
  | use :: uses, c => use.events s c ++ allEvents s uses (use.after s c)

/-- A type that a use itself names, or that its snapshot visits. A type that is only embedded in
others is never asked for. -/
inductive AsksFor (s : Schema) : CacheUse → TypeId → Prop where
  | condition {value : Value} {address : Address} {type : TypeId}
      (h : s.Visits value address type) : AsksFor s (.condition (.returned value)) type
  | update {dialect : Dialect} {value : Value} {r : Record} (h : value.normalize = .ok r) :
    AsksFor s (.update dialect (.returned value)) r.type
  | plan (type : TypeId) : AsksFor s (.plan type) type
  | resolve (type : TypeId) : AsksFor s (.resolve type) type

end CacheUse

structure Ledger where
  cache : PlanCache
  recent : List Resolution
  all : List Resolution

namespace Ledger

def start (c : PlanCache) : Ledger := ⟨c, [], []⟩

def note (l : Ledger) (c : PlanCache) (r : Resolution) : Ledger := ⟨c, l.recent ++ [r], l.all ++ [r]⟩

def touch (s : Schema) (l : Ledger) : Touch → Ledger
  | .resolve type =>
    let answer := l.cache.resolve s type
    match answer.result with
    | .ok _ => l.note answer.state ⟨type, answer.events⟩
    | .error _ => { l with cache := answer.state }
  | .clear => { l with cache := l.cache.clear, recent := [] }

def touchAll (s : Schema) (l : Ledger) (touches : List Touch) : Ledger := touches.foldl (touch s) l

def events (l : Ledger) : List Event := l.all.flatMap Resolution.events

def recentOf (l : Ledger) (type : TypeId) : List Resolution := l.recent.filter fun r => r.type = type

/-- The cache holds exactly what was resolved since the last clearing. Each of these types was planned
once, at its first resolution, and every later one was a hit. -/
structure Exact (s : Schema) (l : Ledger) : Prop where
  enabled : l.cache.enabled = true
  sound : l.cache.Sound s
  keys : (l.cache.stored.map (·.1)).Nodup
  contains_iff : ∀ type, l.cache.contains type = true ↔ ∃ r ∈ l.recent, r.type = type
  reported : ∀ type plan, l.cache.find? type = some plan → ∃ hits,
    (l.recentOf type).map Resolution.events =
      [.planned (s.nameOf type) plan.size] :: List.replicate hits [.cacheHit (s.nameOf type)]

variable {s : Schema} {l : Ledger} {type : TypeId}

theorem touchAll_append (l : Ledger) (before after : List Touch) :
    l.touchAll s (before ++ after) = (l.touchAll s before).touchAll s after :=
  List.foldl_append

/-- All that a resolution can do: a hit, a new plan, or nothing. -/
theorem touch_resolve_cases (s : Schema) (l : Ledger) (type : TypeId) :
    (∃ plan, l.cache.enabled = true ∧ l.cache.find? type = some plan ∧
      l.cache.resolve s type = ⟨.ok plan, l.cache, [.cacheHit (s.nameOf type)]⟩ ∧
      l.touch s (.resolve type) = l.note l.cache ⟨type, [.cacheHit (s.nameOf type)]⟩) ∨
    (∃ plan, (l.cache.enabled = true → l.cache.find? type = none) ∧ s.plan type = .ok plan ∧
      l.cache.resolve s type =
        ⟨.ok plan, l.cache.store type plan, [.planned (s.nameOf type) plan.size]⟩ ∧
      l.touch s (.resolve type) =
        l.note (l.cache.store type plan) ⟨type, [.planned (s.nameOf type) plan.size]⟩) ∨
    ∃ e, s.plan type = .error e ∧ l.cache.resolve s type = ⟨.error e, l.cache, []⟩ ∧
      l.touch s (.resolve type) = l := by
  obtain ⟨plan, hfind, henabled, h⟩ | ⟨plan, hplan, h⟩ | ⟨e, hplan, h⟩ :=
    PlanCache.resolve_cases s type l.cache
  · exact .inl ⟨plan, henabled, hfind, h, by simp only [touch, h]⟩
  · refine .inr (.inl ⟨plan, fun henabled => ?_, hplan, h, by simp only [touch, h]⟩)
    cases hfind : l.cache.find? type with
    | none => rfl
    | some stored => simp [PlanCache.resolve, henabled, hfind] at h
  · exact .inr (.inr ⟨e, hplan, h, by simp only [touch, h]⟩)

theorem touchAll_keeps {P : Ledger → Prop} {touches : List Touch}
    (hkeeps : ∀ t ∈ touches, ∀ l, P l → P (l.touch s t)) (h : P l) : P (l.touchAll s touches) := by
  induction touches generalizing l with
  | nil => exact h
  | cons t rest ih =>
    exact ih (fun t ht => hkeeps t (List.mem_cons_of_mem _ ht)) (hkeeps t List.mem_cons_self l h)

/-- A resolution succeeds, with one event, and drops nothing from the cache, or it changes nothing. -/
theorem touch_resolve_notes (s : Schema) (l : Ledger) (type : TypeId) :
    (∃ plan c e, e.isResolution = true ∧ l.cache.stored <+: c.stored ∧
      l.cache.resolve s type = ⟨.ok plan, c, [e]⟩ ∧
      l.touch s (.resolve type) = l.note c ⟨type, [e]⟩) ∨
    ∃ error, l.cache.resolve s type = ⟨.error error, l.cache, []⟩ ∧ l.touch s (.resolve type) = l := by
  obtain ⟨plan, -, -, hresolve, htouch⟩ | ⟨plan, -, -, hresolve, htouch⟩ | ⟨e, -, hresolve, htouch⟩ :=
    touch_resolve_cases s l type
  · exact .inl ⟨plan, _, _, rfl, List.prefix_refl _, hresolve, htouch⟩
  · refine .inl ⟨plan, _, _, rfl, ?_, hresolve, htouch⟩
    unfold PlanCache.store
    split
    · exact List.prefix_append _ _
    · exact List.prefix_refl _
  · exact .inr ⟨e, hresolve, htouch⟩

theorem events_note (l : Ledger) (c : PlanCache) (r : Resolution) :
    (l.note c r).events = l.events ++ r.events := by
  simp [events, note]

/-- The touches of a computation leave the cache as it does, and what is noted with them is what it
reports. -/
theorem touchAll_questionsIn {α : Type} (x : Lookup α) (l : Ledger) :
    let m := l.touchAll s ((x.questionsIn s l.cache).map .resolve)
    m.cache = (x.runIn s l.cache).state ∧ m.events = l.events ++ (x.runIn s l.cache).events := by
  induction x generalizing l with
  | done a => exact ⟨rfl, (List.append_nil _).symm⟩
  | fail e => exact ⟨rfl, (List.append_nil _).symm⟩
  | ask type next ih =>
    obtain ⟨plan, c, e, -, -, hresolve, htouch⟩ | ⟨error, hresolve, htouch⟩ :=
      touch_resolve_notes s l type
    · simp only [Lookup.questionsIn, Lookup.runIn, hresolve, List.map_cons, touchAll, List.foldl_cons,
        htouch]
      obtain ⟨hcache, hevents⟩ := ih plan (l.note c ⟨type, [e]⟩)
      refine ⟨hcache, hevents.trans ?_⟩
      rw [events_note, List.append_assoc]
      rfl
    · simp only [Lookup.questionsIn, Lookup.runIn, hresolve, List.map_cons, List.map_nil, touchAll,
        List.foldl_cons, List.foldl_nil, htouch, List.append_nil, and_self]

/-- On any cache each successful resolution is reported once, as planned or as a hit. -/
theorem length_all (touches : List Touch) (c : PlanCache) :
    ((start c).touchAll s touches).all.length =
      ((start c).touchAll s touches).events.countP Event.isPlanned +
        ((start c).touchAll s touches).events.countP Event.isCacheHit := by
  refine touchAll_keeps (P := fun l => l.all.length =
    l.events.countP Event.isPlanned + l.events.countP Event.isCacheHit) (fun t _ l h => ?_) rfl
  cases t with
  | clear => exact h
  | resolve type =>
    obtain ⟨-, c, e, hresolution, -, -, htouch⟩ | ⟨-, -, htouch⟩ := touch_resolve_notes s l type
    · have hone : [e].countP Event.isPlanned + [e].countP Event.isCacheHit = 1 := by
        cases e <;> first | rfl | cases hresolution
      rw [htouch, events_note, List.countP_append, List.countP_append, note, List.length_append, h]
      simp only [List.length_singleton]
      omega
    · rwa [htouch]

theorem disabled_touchAll (touches : List Touch)
    (h : l.cache = PlanCache.disabled ∧ ∀ name, .cacheHit name ∉ l.events) :
    (l.touchAll s touches).cache = PlanCache.disabled ∧
      ∀ name, .cacheHit name ∉ (l.touchAll s touches).events := by
  refine touchAll_keeps (P := fun l => l.cache = PlanCache.disabled ∧ ∀ name, .cacheHit name ∉ l.events)
    (fun t _ l h => ?_) h
  obtain ⟨hcache, hevents⟩ := h
  cases t with
  | clear => exact ⟨by rw [touch, hcache]; rfl, hevents⟩
  | resolve type =>
    obtain ⟨plan, henabled, -⟩ | ⟨plan, -, -, -, htouch⟩ | ⟨e, -, -, htouch⟩ :=
      touch_resolve_cases s l type
    · rw [hcache] at henabled
      cases henabled
    · rw [htouch]
      refine ⟨by rw [hcache]; rfl, fun name hmem => ?_⟩
      rw [events_note] at hmem
      simp [hevents] at hmem
    · rw [htouch]
      exact ⟨hcache, hevents⟩

theorem stored_touchAll {touches : List Touch} (h : .clear ∉ touches) (l : Ledger) :
    l.cache.stored <+: (l.touchAll s touches).cache.stored := by
  refine touchAll_keeps (P := fun m => l.cache.stored <+: m.cache.stored) (fun t ht m hm => ?_)
    (List.prefix_refl _)
  cases t with
  | clear => exact absurd ht h
  | resolve type =>
    obtain ⟨-, c, e, -, hstored, -, htouch⟩ | ⟨-, -, htouch⟩ := touch_resolve_notes s m type
    · rw [htouch]
      exact hm.trans hstored
    · rwa [htouch]

theorem mem_of_mem_recent {touches : List Touch} {r : Resolution}
    (h : r ∈ (l.touchAll s touches).recent) : r ∈ l.recent ∨ .resolve r.type ∈ touches := by
  revert h
  refine touchAll_keeps
    (P := fun m => r ∈ m.recent → r ∈ l.recent ∨ .resolve r.type ∈ touches) (fun t ht m hm => ?_) .inl
  cases t with
  | clear => simp [touch]
  | resolve type =>
    obtain ⟨-, c, e, -, -, -, htouch⟩ | ⟨-, -, htouch⟩ := touch_resolve_notes s m type
    · intro hr
      rw [htouch] at hr
      rcases List.mem_append.1 hr with hr | hr
      · exact hm hr
      · obtain rfl := List.mem_singleton.1 hr
        exact .inr ht
    · rwa [htouch]

theorem recentOf_note (l : Ledger) (c : PlanCache) (r : Resolution) (other : TypeId) :
    (l.note c r).recentOf other = l.recentOf other ++ if r.type = other then [r] else [] := by
  simp [recentOf, note, List.filter_append, List.filter_singleton]

namespace Exact

theorem start : (Ledger.start PlanCache.empty).Exact s := by
  refine ⟨rfl, PlanCache.sound_of_stored_eq_nil rfl, List.nodup_nil, fun type => ?_, fun type plan h => ?_⟩
  · simp [Ledger.start, PlanCache.contains, PlanCache.find?, PlanCache.empty]
  · cases h

theorem clear (h : l.Exact s) : (l.touch s .clear).Exact s := by
  refine ⟨h.enabled, PlanCache.sound_of_stored_eq_nil rfl, List.nodup_nil, fun type => ?_,
    fun type plan hfind => ?_⟩
  · simp [touch, PlanCache.contains, PlanCache.find?, PlanCache.clear]
  · cases hfind

theorem hit (h : l.Exact s) {plan : Plan} (hfind : l.cache.find? type = some plan) :
    (l.note l.cache ⟨type, [.cacheHit (s.nameOf type)]⟩).Exact s := by
  have hcontains : l.cache.contains type = true := Option.isSome_iff_exists.2 ⟨plan, hfind⟩
  refine ⟨h.enabled, h.sound, h.keys, fun other => ?_, fun other found hfound => ?_⟩
  · change l.cache.contains other = true ↔ _
    rw [h.contains_iff other]
    constructor
    · rintro ⟨r, hr, heq⟩
      exact ⟨r, List.mem_append_left _ hr, heq⟩
    · rintro ⟨r, hr, rfl⟩
      rcases List.mem_append.1 hr with hr | hr
      · exact ⟨r, hr, rfl⟩
      · obtain rfl := List.mem_singleton.1 hr
        exact (h.contains_iff _).1 hcontains
  · obtain ⟨hits, hreported⟩ := h.reported other found hfound
    rw [recentOf_note]
    split
    · rename_i heq
      obtain rfl : type = other := heq
      refine ⟨hits + 1, ?_⟩
      rw [List.map_append, hreported, List.replicate_succ']
      rfl
    · exact ⟨hits, by rw [List.append_nil, hreported]⟩

/-- A new type is stored behind the others, and this is its first resolution. -/
theorem planned (h : l.Exact s) {plan : Plan} (hnew : l.cache.find? type = none)
    (hplan : s.plan type = .ok plan) :
    (l.note (l.cache.store type plan) ⟨type, [.planned (s.nameOf type) plan.size]⟩).Exact s := by
  have hstore : l.cache.store type plan =
      { l.cache with stored := l.cache.stored ++ [(type, plan)] } := if_pos h.enabled
  have hfind : ∀ other, (l.cache.store type plan).find? other =
      (l.cache.find? other).or (if type = other then some plan else none) := by
    intro other
    rw [hstore, PlanCache.find?, List.lookup_append, List.lookup_cons, List.lookup_nil]
    by_cases heq : type = other
    · rw [if_pos heq, heq, beq_self_eq_true]
      rfl
    · rw [if_neg heq, beq_false_of_ne (Ne.symm heq)]
      rfl
  -- The type has no earlier resolution since the last clearing: it would be stored.
  have hnone : ∀ r ∈ l.recent, r.type ≠ type := by
    intro r hr heq
    have hcontains := (h.contains_iff type).2 ⟨r, hr, heq⟩
    rw [PlanCache.contains, hnew] at hcontains
    cases hcontains
  refine ⟨by rw [hstore]; exact h.enabled, h.sound.store hplan, ?_, fun other => ?_,
    fun other found hfound => ?_⟩
  · have hkey : type ∉ l.cache.stored.map (·.1) := by
      intro hmem
      obtain ⟨stored, hstored, rfl⟩ := List.mem_map.1 hmem
      simpa using List.lookup_eq_none_iff.1 hnew stored hstored
    rw [hstore]
    change ((l.cache.stored ++ [(type, plan)]).map (·.1)).Nodup
    rw [List.map_append]
    exact h.keys.append (List.nodup_singleton type) (List.disjoint_singleton.2 hkey)
  · change ((l.cache.store type plan).find? other).isSome = true ↔ _
    have hold := h.contains_iff other
    rw [PlanCache.contains] at hold
    rw [hfind, Option.isSome_or, Bool.or_eq_true, hold]
    simp [note, or_and_right, exists_or]
  · rw [recentOf_note]
    change (l.cache.store type plan).find? other = some found at hfound
    rw [hfind] at hfound
    by_cases heq : type = other
    · subst heq
      rw [hnew, if_pos rfl] at hfound
      obtain rfl := Option.some.inj hfound
      have hempty : l.recentOf type = [] :=
        List.filter_eq_nil_iff.2 fun r hr => by simpa using hnone r hr
      exact ⟨0, by rw [hempty, if_pos rfl]; rfl⟩
    · rw [if_neg heq, Option.or_none] at hfound
      rw [if_neg heq, List.append_nil]
      exact h.reported other found hfound

theorem touchAll (h : l.Exact s) (touches : List Touch) : (l.touchAll s touches).Exact s := by
  refine touchAll_keeps (fun t _ l h => ?_) h
  cases t with
  | clear => exact h.clear
  | resolve type =>
    obtain ⟨plan, -, hfind, -, htouch⟩ | ⟨plan, hnew, hplan, -, htouch⟩ | ⟨e, -, -, htouch⟩ :=
      touch_resolve_cases s l type
    · rw [htouch]
      exact h.hit hfind
    · rw [htouch]
      exact h.planned (hnew h.enabled) hplan
    · rwa [htouch]

end Exact

end Ledger

namespace Lookup

variable {α : Type} {s : Schema} {c : PlanCache} {type : TypeId}

/-- On a sound cache the questions are those that are asked of fresh plans, up to one without a plan. -/
theorem mem_asked_of_mem_questionsIn (x : Lookup α) (hc : c.Sound s) (h : type ∈ x.questionsIn s c)
    {plan : Plan} (hplan : s.plan type = .ok plan) : type ∈ x.asked s.plan := by
  induction x generalizing c with
  | done a => cases h
  | fail error => cases h
  | ask first next ih =>
    -- The cache answers as a fresh plan would, so both runs go on with the same answer.
    have hresult := (CacheStep.transparent_resolve s first).result c hc
    have hstate := (CacheStep.transparent_resolve s first).state c hc
    simp only [questionsIn, hresult] at h
    cases hfirst : s.plan first with
    | ok found =>
      simp only [hfirst, List.mem_cons] at h
      simp only [asked, hfirst, List.mem_cons]
      exact h.imp_right (ih found hstate)
    | error error =>
      simp only [hfirst, List.mem_singleton] at h
      rw [h, hfirst] at hplan
      cases hplan

end Lookup

namespace CacheUse

variable {s : Schema} {c : PlanCache} {type : TypeId}

theorem sound_after (use : CacheUse) (hc : c.Sound s) : (use.after s c).Sound s := by
  cases use with
  | condition input => exact (s.transparent_conditionCall input).state c hc
  | update dialect input => exact (s.transparent_updateCall dialect input).state c hc
  | plan type => exact (s.transparent_planCall type).state c hc
  | resolve type => exact (CacheStep.transparent_resolve s type).state c hc
  | clear => exact PlanCache.sound_of_stored_eq_nil rfl

theorem questionsIn_ask_done (type : TypeId) (c : PlanCache) :
    (Lookup.ask type .done).questionsIn s c = [type] := by
  simp only [Lookup.questionsIn]
  split <;> rfl

theorem filter_closing {α : Type} {built : α → List Event} (result : Except Error α)
    (h : ∀ a, (built a).filter Event.isResolution = []) :
    (Schema.closing built result).filter Event.isResolution = [] := by
  cases result with
  | ok a => exact h a
  | error e => rfl

/-- A use is its touches: they leave the cache that it leaves, and of what it reports just the
resolutions are noted with them. -/
theorem touchAll_touches (use : CacheUse) (l : Ledger) :
    let m := l.touchAll s (use.touches s l.cache)
    m.cache = use.after s l.cache ∧
      m.events = l.events ++ (use.events s l.cache).filter Event.isResolution := by
  have hrun : ∀ {α : Type} (x : Lookup α) (ending : List Event),
      ending.filter Event.isResolution = [] →
      (l.touchAll s ((x.questionsIn s l.cache).map .resolve)).events =
        l.events ++ ((x.runIn s l.cache).events ++ ending).filter Event.isResolution := by
    intro α x ending hending
    rw [(Ledger.touchAll_questionsIn x l).2, List.filter_append, hending, List.append_nil,
      List.filter_eq_self.2 fun e => x.isResolution_of_mem_runIn]
  cases use with
  | condition input =>
    cases input with
    | returned value =>
      rw [after, events, s.conditionCall_returned]
      exact ⟨(Ledger.touchAll_questionsIn _ l).1, hrun _ _ (filter_closing _ fun _ => rfl)⟩
    | panicked payload => exact ⟨rfl, (List.append_nil _).symm⟩
  | update dialect input =>
    cases input with
    | returned value =>
      rw [after, events, s.updateCall_returned]
      exact ⟨(Ledger.touchAll_questionsIn _ l).1, hrun _ _ (filter_closing _ fun _ => rfl)⟩
    | panicked payload => exact ⟨rfl, (List.append_nil _).symm⟩
  | plan type =>
    -- A plain question is a computation that asks one question.
    rw [after, events, s.planCall_eq, touches, ← List.map_singleton, ← questionsIn_ask_done]
    exact ⟨(Ledger.touchAll_questionsIn _ l).1, hrun _ _ (filter_closing _ fun _ => rfl)⟩
  | resolve type =>
    have hevents := hrun (Lookup.ask type .done) [] rfl
    rw [List.append_nil] at hevents
    rw [after, events, touches, ← List.map_singleton, ← questionsIn_ask_done, ← Lookup.runIn_ask_done]
    exact ⟨(Ledger.touchAll_questionsIn _ l).1, hevents⟩
  | clear => exact ⟨rfl, (List.append_nil _).symm⟩

theorem touchAll_allTouches (uses : List CacheUse) (l : Ledger) :
    let m := l.touchAll s (allTouches s uses l.cache)
    m.cache = uses.foldl (fun c use => use.after s c) l.cache ∧
      m.events = l.events ++ (allEvents s uses l.cache).filter Event.isResolution := by
  induction uses generalizing l with
  | nil => exact ⟨rfl, (List.append_nil _).symm⟩
  | cons use uses ih =>
    obtain ⟨hcache, hevents⟩ := use.touchAll_touches (s := s) l
    obtain ⟨hlast, hall⟩ := ih (l.touchAll s (use.touches s l.cache))
    rw [hcache] at hlast hall
    simp only [allTouches, allEvents, Ledger.touchAll_append, List.foldl_cons, List.filter_append]
    exact ⟨hlast, by rw [hall, hevents, List.append_assoc]⟩

theorem asksFor_of_resolve_mem {use : CacheUse} (hc : c.Sound s) {plan : Plan}
    (hplan : s.plan type = .ok plan) (h : .resolve type ∈ use.touches s c) : use.AsksFor s type := by
  cases use with
  | condition input =>
    cases input with
    | returned value =>
      obtain ⟨asked, hasked, heq⟩ := List.mem_map.1 h
      obtain rfl := Touch.resolve.inj heq
      have hmem := (Condition.ofValue value).mem_asked_of_mem_questionsIn hc hasked hplan
      obtain ⟨visits, hvisits, hlist⟩ := (Condition.walks_ofValue s value).asked
      rw [hlist] at hmem
      obtain ⟨visit, hvisit, rfl⟩ := List.mem_map.1 hmem
      exact .condition ((hvisits.mem_iff _ _).1 hvisit).1
    | panicked payload => cases h
  | update dialect input =>
    cases input with
    | returned value =>
      obtain ⟨asked, hasked, heq⟩ := List.mem_map.1 h
      obtain rfl := Touch.resolve.inj heq
      have hmem := (Assignments.ofValue dialect value).mem_asked_of_mem_questionsIn hc hasked hplan
      rw [Assignments.asked_ofValue] at hmem
      cases hr : value.normalize with
      | ok r =>
        simp only [hr, Schema.resolvable] at hmem
        cases hfirst : s.plan r.type with
        | ok found =>
          rw [hfirst] at hmem
          obtain rfl := List.mem_singleton.1 hmem
          exact .update hr
        | error e => simp [hfirst] at hmem
      | error e => simp [hr] at hmem
    | panicked payload => cases h
  | plan asked =>
    obtain rfl := Touch.resolve.inj (List.mem_singleton.1 h)
    exact .plan _
  | resolve asked =>
    obtain rfl := Touch.resolve.inj (List.mem_singleton.1 h)
    exact .resolve _
  | clear => cases List.mem_singleton.1 h

theorem exists_asksFor {uses : List CacheUse} (hc : c.Sound s) {plan : Plan}
    (hplan : s.plan type = .ok plan) (h : .resolve type ∈ allTouches s uses c) :
    ∃ use ∈ uses, use.AsksFor s type := by
  induction uses generalizing c with
  | nil => cases h
  | cons use uses ih =>
    rcases List.mem_append.1 h with h | h
    · exact ⟨use, List.mem_cons_self, asksFor_of_resolve_mem hc hplan h⟩
    · obtain ⟨other, hother, hasks⟩ := ih (use.sound_after hc) h
      exact ⟨other, List.mem_cons_of_mem use hother, hasks⟩

end CacheUse

namespace Host

variable {id : CacheId}

/-- In a run of nothing but uses of one cache, the observer gets their events and no others. -/
theorem observer_actAll {h : Host} (hid : id < h.caches.length) {actions : List Action}
    (huses : ∀ action ∈ actions, ∃ step use, action = .perform step ∧ step.use? = some (id, use)) :
    (h.actAll actions).2.observer = h.observer.recordAll
      (CacheUse.allEvents h.schema (actions.flatMap (Action.usesOf id)) (h.cache id)) := by
  induction actions generalizing h with
  | nil => rfl
  | cons action rest ih =>
    obtain ⟨⟨step, use, rfl, huse⟩, hrest⟩ := List.forall_mem_cons.1 huses
    have husesOf : step.usesOf id = [use] := by
      have hscope : ∀ steps, step ≠ .scope steps := by
        rintro steps rfl
        cases huse
      rw [Step.usesOf_eq hscope, Step.ownUse, huse]
      exact if_pos rfl
    have hnext : (h.afterUse id use).cache id = use.after h.schema (h.cache id) := by
      rw [afterUse, cache_set hid, if_pos rfl]
    have hobserver := ih (h := h.afterUse id use) (by simpa [afterUse] using hid) hrest
    rw [hnext] at hobserver
    change ((h.perform step).2.actAll rest).2.observer = _
    rw [perform_of_use huse, hobserver, List.flatMap_cons, Action.usesOf, husesOf]
    exact List.foldl_append.symm

/-- A cache in a run of its host, at every point of it, those in the middle of a call among them. Each
successful resolution through it is reported once, as planned or as a hit. If it is off it stays empty
and nothing is a hit. If it was empty it holds exactly the types that were resolved since it was last
cleared, each planned once; each of them was asked for and has a plan, and until the next clearing no
entry is dropped or changed. -/
theorem cache_contents (h : Host) (hid : id < h.caches.length)
    (actions : List Action) :
    let s := h.schema
    let uses := actions.flatMap (Action.usesOf id)
    let touches := CacheUse.allTouches s uses (h.cache id)
    let ledger := (Ledger.start (h.cache id)).touchAll s
    (h.actAll actions).2.cache id = (ledger touches).cache ∧
    (CacheUse.allEvents s uses (h.cache id)).filter Event.isResolution = (ledger touches).events ∧
    ((∀ action ∈ actions, ∃ step use, action = .perform step ∧ step.use? = some (id, use)) →
      (h.actAll actions).2.observer =
        h.observer.recordAll (CacheUse.allEvents s uses (h.cache id))) ∧
    ∀ seen, seen <+: touches →
      (ledger seen).all.length = (ledger seen).events.countP Event.isPlanned +
        (ledger seen).events.countP Event.isCacheHit ∧
      (h.cache id = PlanCache.disabled →
        (ledger seen).cache = PlanCache.disabled ∧ ∀ name, .cacheHit name ∉ (ledger seen).events) ∧
      (h.cache id = PlanCache.empty →
        (ledger seen).Exact s ∧
        (∀ type, (ledger seen).cache.contains type = true →
          (∃ plan, s.plan type = .ok plan) ∧ ∃ use ∈ uses, use.AsksFor s type) ∧
        ∀ more, .clear ∉ more →
          (ledger seen).cache.stored <+: (ledger (seen ++ more)).cache.stored) := by
  intro s uses touches ledger
  obtain ⟨hcache, hevents⟩ := CacheUse.touchAll_allTouches (s := s) uses (Ledger.start (h.cache id))
  refine ⟨(follows_actAll actions hid).cache.trans hcache.symm, hevents.symm, observer_actAll hid,
    fun seen hseen => ⟨Ledger.length_all seen _, fun hdisabled => ?_, fun hempty => ?_⟩⟩
  · exact Ledger.disabled_touchAll seen ⟨hdisabled, fun name hmem => by cases hmem⟩
  · have hexact : (ledger seen).Exact s := by
      have hstart : (Ledger.start (h.cache id)).Exact s := hempty ▸ Ledger.Exact.start
      exact hstart.touchAll seen
    refine ⟨hexact, fun type hcontains => ?_, fun more hmore => ?_⟩
    · obtain ⟨plan, hfind⟩ := Option.isSome_iff_exists.1 hcontains
      have hplan := hexact.sound.plan_of_find? hfind
      obtain ⟨r, hr, rfl⟩ := (hexact.contains_iff type).1 hcontains
      rcases Ledger.mem_of_mem_recent hr with hr | hr
      · cases hr
      · have hsound : (h.cache id).Sound s := hempty ▸ PlanCache.sound_of_stored_eq_nil rfl
        exact ⟨⟨plan, hplan⟩, CacheUse.exists_asksFor hsound hplan (hseen.subset hr)⟩
    · change _ <+: ((Ledger.start (h.cache id)).touchAll s (seen ++ more)).cache.stored
      rw [Ledger.touchAll_append]
      exact Ledger.stored_touchAll hmore _

def failedSearch (cache : CacheId) : Action :=
  .perform (.condition ⟨⟨true, .mysql⟩, cache⟩ (.returned Schema.nestedSearch))

def failedTouches : List Touch := [.resolve 0, .resolve 0, .resolve 1]

/-- The failed call leaves the searches in an empty cache and nothing else; in a cache that is off it
leaves nothing. -/
theorem failedSearch_contents :
    let ledger := (Ledger.start PlanCache.empty).touchAll Schema.searches failedTouches
    let off := ((start Schema.searches).addCache PlanCache.disabled).2
    ((start Schema.searches).actAll [failedSearch 0]).2.cache 0 = ledger.cache ∧
      ledger.Exact Schema.searches ∧
      ledger.events = [.planned "Search" 3, .cacheHit "Search"] ∧
      ledger.cache.contains 0 = true ∧ ledger.cache.contains 1 = false ∧
      (off.actAll [failedSearch 1]).2.cache 1 = PlanCache.disabled := by
  have htouches : CacheUse.allTouches Schema.searches
      ([failedSearch 0].flatMap (Action.usesOf 0)) PlanCache.empty = failedTouches := by cbv
  have hzero : 0 < (start Schema.searches).caches.length := by decide
  have hone : 1 < ((start Schema.searches).addCache PlanCache.disabled).2.caches.length := by decide
  obtain ⟨hcache, -, -, hpoints⟩ := cache_contents _ hzero [failedSearch 0]
  obtain ⟨hoff, -, -, hoffPoints⟩ := cache_contents _ hone [failedSearch 1]
  have hprefix : failedTouches <+: CacheUse.allTouches Schema.searches
      ([failedSearch 0].flatMap (Action.usesOf 0)) PlanCache.empty := htouches ▸ List.prefix_refl _
  refine ⟨hcache.trans ?_, ((hpoints failedTouches hprefix).2.2 rfl).1, by cbv, by cbv, by cbv,
    hoff.trans ((hoffPoints _ (List.prefix_refl _)).2.1 rfl).1⟩
  exact congrArg (fun touches => ((Ledger.start PlanCache.empty).touchAll Schema.searches touches).cache)
    htouches

end Host

end Criteria
