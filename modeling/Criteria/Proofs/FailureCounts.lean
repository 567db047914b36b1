import Criteria.Proofs.BuilderExits
import Criteria.Proofs.CacheUses
import Criteria.Proofs.CounterTotals

set_option autoImplicit false

namespace Criteria

/-- The error of a failed call of a session. A direct question to a cache is no such call. -/
def Reply.error? : Reply → Option Error
  | .condition (.error e) => some e
  | .update (.error e) => some e
  | .plan (.error e) => some e
  | _ => none

def Step.payload? : Step → Option Payload
  | .condition _ (.panicked payload) => some payload
  | .update _ (.panicked payload) => some payload
  | _ => none

mutual

def Step.resets : Step → Bool
  | .reset => true
  | .scope steps => anyResets steps
  | _ => false

def Step.anyResets : List Step → Bool
  | [] => false
  | step :: steps => resets step || anyResets steps

end

namespace Schema

variable {s : Schema} {value : Value} {error : Error}

theorem classOf_of_normalize_eq_error (h : value.normalize = .error error) :
    error.classOf = .input := by
  unfold Value.normalize at h
  split at h
  · cases h
  · obtain rfl := Except.error.inj h
    rfl

/-- No builder fails by itself on the internal side. -/
theorem Failures.classOf_ne_internal {address : Address} (h : s.Failures value address error) :
    error.classOf ≠ .internal := by
  have hplan : ∀ {type : TypeId}, s.plan type = .error error → error.classOf ≠ .internal := by
    intro type hplan
    rw [classOf_of_plan_eq_error hplan]
    decide
  have hnormalize : ∀ {item : Value}, item.normalize = .error error → error.classOf ≠ .internal := by
    intro item hitem
    rw [classOf_of_normalize_eq_error hitem]
    decide
  cases h with
  | input hvalue => exact hnormalize hvalue
  | plan _ htype => exact hplan htype
  | place _ htype hfinds =>
    obtain ⟨place, hmeets, hfails⟩ := hfinds
    cases hfails with
    | plan _ hinner => exact hplan hinner
    | record hitem => exact hnormalize hitem
    | leaf htarget hleaf =>
      obtain ⟨owner, found, hfound, he⟩ := hmeets.exists_plan htype rfl rfl
      obtain ⟨-, ⟨c, h⟩ | ⟨-, -, h⟩ | ⟨expected, kind, h⟩⟩ := leaf_cases hfound he htarget _
      · cases hleaf.symm.trans h
      · cases hleaf.symm.trans h
      · obtain rfl := Except.error.inj (hleaf.symm.trans h)
        nofun

theorem classOf_of_mergeText_eq_error (h : UpdateOp.mergeText value = .error error) :
    error.classOf = .value := by
  unfold UpdateOp.mergeText at h
  split at h
  · rename_i outcome _
    cases outcome with
    | ok document => cases h
    | error message =>
      obtain rfl := Except.error.inj h
      rfl
  · obtain rfl := Except.error.inj h
    rfl
  · cases h

theorem classOf_of_assign_eq_error {op : UpdateOp} {column : String} {dialect : Dialect}
    (h : op.assign column value dialect = .error error) : error.classOf = .value := by
  cases op with
  | add => cases h
  | sub => cases h
  | mergeJson =>
    change (UpdateOp.mergeText value).bind _ = _ at h
    cases hjson : UpdateOp.mergeText value with
    | error other =>
      rw [hjson] at h
      obtain rfl := Except.error.inj h
      exact classOf_of_mergeText_eq_error hjson
    | ok json =>
      rw [hjson] at h
      change (if json.isEmpty = true then _ else _) = _ at h
      split at h <;> cases h

theorem classOf_ne_internal_of_condition (h : (Condition.ofValue value).run s.plan = .error error) :
    error.classOf ≠ .internal := by
  obtain ⟨address, hfails⟩ :=
    (((Condition.walks_ofValue s value).failsFirst.error_iff _).1 h).exists
  exact hfails.classOf_ne_internal

theorem classOf_ne_internal_of_update {dialect : Dialect}
    (h : (Assignments.ofValue dialect value).run s.plan = .error error) : error.classOf ≠ .internal := by
  cases hvalue : value.normalize with
  | error other =>
    rw [Assignments.ofValue, hvalue] at h
    obtain rfl := Except.error.inj h
    rw [classOf_of_normalize_eq_error hvalue]
    decide
  | ok r =>
    cases hplan : s.plan r.type with
    | error other =>
      rw [Assignments.ofValue, hvalue] at h
      simp only [Lookup.run, hplan] at h
      obtain rfl := Except.error.inj h
      rw [classOf_of_plan_eq_error hplan]
      decide
    | ok plan =>
      rw [Assignments.run_ofValue_record hvalue hplan] at h
      obtain ⟨-, e, -, -, ⟨column, given, op, -, -, hassign⟩, -⟩ :=
        Assignments.foldlM_addEntry_eq_error_iff.1 h
      rw [classOf_of_assign_eq_error hassign]
      decide

end Schema

abbrev Call := Step × Reply

namespace Call

def failed (call : Call) : Bool := call.2.error?.isSome

/-- A panic with an error that is not internal. -/
def countedTwice (call : Call) : Bool :=
  match call.1.payload? with
  | some (.error e) => e.classOf ≠ .internal
  | _ => false

def extend (calls : List Call) (call : Call) : List Call :=
  if call.1.resets then [] else calls ++ [call]

def sinceReset (calls : List Call) : List Call := calls.foldl extend []

end Call

namespace ErrorClass

def counter (t : Totals) : ErrorClass → Nat
  | .input => t.inputErrors
  | .schema => t.schemaErrors
  | .value => t.valueErrors
  | .internal => t.panicsRecovered

def weight : ErrorClass → Event → Nat
  | .input, .failed .input => 1
  | .schema, .failed .schema => 1
  | .value, .failed .value => 1
  | .internal, .panicRecovered => 1
  | _, _ => 0

def total (side : ErrorClass) (events : List Event) : Nat := (events.map side.weight).sum

/-- How often a call is counted on a side. -/
def charge : ErrorClass → Call → Nat
  | .internal, call => call.1.payload?.isSome.toNat
  | side, call => (decide (call.2.error?.map Error.classOf = some side)).toNat

def charged (side : ErrorClass) (calls : List Call) : Nat := (calls.map side.charge).sum

variable {side : ErrorClass}

theorem charged_append (side : ErrorClass) (calls : List Call) (call : Call) :
    side.charged (calls ++ [call]) = side.charged calls + side.charge call := by
  simp [charged]

theorem counter_addTotals {t : Totals} {n : Nat} (h : side.counter t = Count.clamp n) (e : Event) :
    side.counter (Counters.addTotals t e) = Count.clamp (n + side.weight e) := by
  cases e with
  | failed other =>
    cases side <;> cases other <;> simp_all [counter, Counters.addTotals, weight, Count.add_clamp]
  | panicRecovered => cases side <;> simp_all [counter, Counters.addTotals, weight, Count.add_clamp]
  | _ => cases side <;> exact h

theorem total_append (side : ErrorClass) (before after : List Event) :
    side.total (before ++ after) = side.total before + side.total after := by
  simp [total]

theorem total_of_isResolution {events : List Event} (h : ∀ e ∈ events, e.isResolution = true) :
    side.total events = 0 := by
  refine List.sum_eq_zero fun n hn => ?_
  obtain ⟨e, he, rfl⟩ := List.mem_map.1 hn
  have hresolution := h e he
  cases e <;> first | (cases side <;> rfl) | cases hresolution

/-- Without a sink events are counted, and there is no sink after them either. -/
theorem counter_recordAll {o : Observer} {n : Nat} (hslot : o.slot = none)
    (h : side.counter o.counters.totals = Count.clamp n) (events : List Event) :
    (o.recordAll events).slot = none ∧
      side.counter (o.recordAll events).counters.totals = Count.clamp (n + side.total events) := by
  induction events generalizing o n with
  | nil => exact ⟨hslot, h⟩
  | cons e events ih =>
    change ((o.record e).recordAll events).slot = none ∧
      side.counter ((o.record e).recordAll events).counters.totals = _
    rw [Observer.record_of_no_sink hslot, total, List.map_cons, List.sum_cons, ← Nat.add_assoc]
    exact ih (o := { o with counters := o.counters.apply e }) hslot (counter_addTotals h e)

theorem weight_failed (side : ErrorClass) (e : Error) :
    side.weight (.failed e.classOf) =
      if side = .internal then 0 else (decide (e.classOf = side)).toNat := by
  cases side <;> cases e.classOf <;> rfl

theorem charge_eq (side : ErrorClass) (call : Call) :
    side.charge call =
      if side = .internal then call.1.payload?.isSome.toNat
      else (decide (call.2.error?.map Error.classOf = some side)).toNat := by
  cases side <;> rfl

theorem total_returned {α : Type} {s : Schema} {c : PlanCache} (x : Lookup α) {built : α → List Event}
    {step : Step} {reply : Reply} (hbuilt : ∀ a, side.total (built a) = 0)
    (hpayload : step.payload? = none)
    (hreply : reply.error? = match (x.runIn s c).result with | .ok _ => none | .error e => some e) :
    side.total ((x.runIn s c).events ++ Schema.closing built (x.runIn s c).result) =
      side.charge (step, reply) := by
  rw [total_append, total_of_isResolution fun e he => x.isResolution_of_mem_runIn he, Nat.zero_add,
    charge_eq, hreply, hpayload]
  cases (x.runIn s c).result with
  | ok a =>
    rw [Schema.closing, hbuilt]
    cases side <;> rfl
  | error e =>
    have hclosing : side.total [.failed e.classOf] = side.weight (.failed e.classOf) := Nat.add_zero _
    rw [Schema.closing, hclosing, weight_failed]
    simp

theorem charge_idle (side : ErrorClass) {call : Call} (hpayload : call.1.payload? = none)
    (hreply : call.2.error? = none) : side.charge call = 0 := by
  rw [charge_eq, hpayload, hreply]
  cases side <;> rfl

theorem total_panicked {payload : Payload} {step : Step} {reply : Reply}
    (hpayload : step.payload? = some payload) (hreply : reply.error? = some payload.recover) :
    side.total [.panicRecovered, .failed payload.recover.classOf] = side.charge (step, reply) := by
  have htotal : side.total [.panicRecovered, .failed payload.recover.classOf] =
      side.weight .panicRecovered + side.weight (.failed payload.recover.classOf) := by
    simp [total]
  rw [htotal, weight_failed, charge_eq, hpayload, hreply]
  cases side <;> simp [weight]

end ErrorClass

namespace Host

variable {h : Host} {step : Step} {id : CacheId} {use : CacheUse}

/-- The events of a step charge each side as its reply says. -/
theorem total_events (huse : step.use? = some (id, use)) (side : ErrorClass) :
    side.total (use.events h.schema (h.cache id)) = side.charge (step, (h.perform step).1) := by
  have hzero : ∀ {α : Type} (built : α → Event), (∀ a, side.weight (built a) = 0) →
      ∀ a, side.total [built a] = 0 := by
    intro α built hbuilt a
    simp [ErrorClass.total, hbuilt]
  cases step <;> simp only [Step.use?, Option.some.injEq, Prod.mk.injEq, reduceCtorEq] at huse
  all_goals obtain ⟨rfl, rfl⟩ := huse
  case condition session input =>
    cases input with
    | returned value =>
      rw [CacheUse.events, Host.perform, Host.runOn, Schema.conditionCall_returned]
      refine ErrorClass.total_returned _ (hzero _ fun a => by cases side <;> rfl) rfl ?_
      cases ((Condition.ofValue value).runIn h.schema (h.cache session.cache)).result <;> rfl
    | panicked payload =>
      rw [Host.perform]
      exact ErrorClass.total_panicked rfl rfl
  case update session input =>
    cases input with
    | returned value =>
      rw [CacheUse.events, Host.perform, Host.runOn, Schema.updateCall_returned]
      refine ErrorClass.total_returned _ (hzero _ fun a => by cases side <;> rfl) rfl ?_
      cases ((Assignments.ofValue session.config.dialect value).runIn h.schema
        (h.cache session.cache)).result <;> rfl
    | panicked payload =>
      rw [Host.perform]
      exact ErrorClass.total_panicked rfl rfl
  case plan session type =>
    rw [CacheUse.events, Host.perform, Host.runOn, Schema.planCall_eq]
    refine ErrorClass.total_returned _ (fun a => rfl) rfl ?_
    cases ((Lookup.ask type .done).runIn h.schema (h.cache session.cache)).result <;> rfl
  case resolve cache type =>
    rw [CacheUse.events, Host.perform, ← Lookup.runIn_ask_done]
    rw [ErrorClass.total_of_isResolution fun e he => Lookup.isResolution_of_mem_runIn _ he]
    cases side <;> rfl
  case clear cache =>
    rw [Host.perform]
    cases side <;> rfl

/-- With a sink in force nothing is counted, but the counters may be cleared. -/
theorem counters_perform_performAll :
    (∀ (step : Step) (h : Host) (sink : SinkId), h.observer.slot = some sink →
      (h.perform step).2.observer.slot = some sink ∧
      (h.perform step).2.observer.counters =
        if step.resets then Counters.zero else h.observer.counters) ∧
    ∀ (steps : List Step) (h : Host) (sink : SinkId), h.observer.slot = some sink →
      (h.performAll steps).2.observer.slot = some sink ∧
      (h.performAll steps).2.observer.counters =
        if Step.anyResets steps then Counters.zero else h.observer.counters := by
  refine Step.resets.mutual_induct _ _ ?reset ?scope ?single ?nil ?cons
  case reset =>
    intro h sink hslot
    rw [Host.perform]
    exact ⟨hslot, rfl⟩
  case scope =>
    intro steps ih h sink hslot
    rw [perform_scope]
    obtain ⟨-, hcounters⟩ :=
      ih { h with observer := h.observer.install h.sinks, sinks := h.sinks + 1 } h.sinks rfl
    exact ⟨hslot, hcounters⟩
  case single =>
    intro step hreset hscope h sink hslot
    have hresets : step.resets = false := by
      cases step with
      | reset => exact absurd rfl hreset
      | scope steps => exact absurd rfl (hscope steps)
      | _ => rfl
    rw [hresets]
    cases huse : step.use? with
    | none =>
      rw [perform_of_idle huse hscope]
      cases step with
      | reset => exact absurd rfl hreset
      | _ => exact ⟨hslot, rfl⟩
    | some owned =>
      rw [perform_of_use huse, afterUse, Observer.recordAll_of_slot hslot]
      exact ⟨hslot, rfl⟩
  case nil =>
    intro h sink hslot
    rw [Host.performAll]
    exact ⟨hslot, rfl⟩
  case cons =>
    intro step steps ihstep ihsteps h sink hslot
    obtain ⟨hnext, hstep⟩ := ihstep h sink hslot
    obtain ⟨hlast, hsteps⟩ := ihsteps (h.perform step).2 sink hnext
    rw [performAll_cons, hsteps, hstep, Step.anyResets]
    refine ⟨hlast, ?_⟩
    cases step.resets <;> cases Step.anyResets steps <;> rfl

structure Charged (h : Host) (calls : List Call) : Prop where
  slot : h.observer.slot = none
  counter : ∀ side : ErrorClass,
    side.counter h.observer.counters.totals = Count.clamp (side.charged calls)

theorem charged_zero {k : Host} (hslot : k.observer.slot = none)
    (hzero : k.observer.counters = Counters.zero) : k.Charged [] := by
  refine ⟨hslot, fun side => ?_⟩
  rw [hzero]
  cases side <;> rfl

theorem Charged.idle {calls : List Call} {call : Call} (hcharged : h.Charged calls) {k : Host}
    (hslot : k.observer.slot = none) (hcounters : k.observer.counters = h.observer.counters)
    (hpayload : call.1.payload? = none) (hreply : call.2.error? = none) :
    k.Charged (calls ++ [call]) := by
  refine ⟨hslot, fun side => ?_⟩
  rw [hcounters, hcharged.counter, ErrorClass.charged_append, side.charge_idle hpayload hreply]
  rfl

/-- The step: a call is charged, and a step that clears the counters clears the charges. -/
theorem Charged.perform {calls : List Call} (hcharged : h.Charged calls) (step : Step) :
    (h.perform step).2.Charged (Call.extend calls (step, (h.perform step).1)) := by
  cases huse : step.use? with
  | some owned =>
    obtain ⟨id, use⟩ := owned
    have hresets : step.resets = false := by
      cases step <;> first | rfl | cases huse
    rw [Call.extend, if_neg (by simp [hresets])]
    have hrecorded := fun side => ErrorClass.counter_recordAll hcharged.slot (hcharged.counter side)
      (use.events h.schema (h.cache id))
    refine ⟨?_, fun side => ?_⟩
    · rw [perform_of_use huse]
      exact (hrecorded .input).1
    · rw [ErrorClass.charged_append, ← total_events huse, perform_of_use huse]
      exact (hrecorded side).2
  | none =>
    cases step with
    | reset =>
      rw [Host.perform]
      exact charged_zero hcharged.slot rfl
    | scope steps =>
      -- Inside, a sink is in force, so the scope counts nothing; it can only clear the counters.
      have hcounters := (counters_perform_performAll.2 steps
        { h with observer := h.observer.install h.sinks, sinks := h.sinks + 1 } h.sinks rfl).2
      have hslot : (h.perform (.scope steps)).2.observer.slot = none := by
        rw [perform_scope]
        exact hcharged.slot
      have hobserver : (h.perform (.scope steps)).2.observer.counters =
          if Step.anyResets steps then Counters.zero else h.observer.counters := by
        rw [perform_scope]
        exact hcounters
      rw [Call.extend]
      change Charged _ (if Step.anyResets steps = true then _ else _)
      cases hresets : Step.anyResets steps with
      | true =>
        rw [hresets] at hobserver
        exact charged_zero hslot hobserver
      | false =>
        rw [hresets] at hobserver
        exact hcharged.idle hslot hobserver rfl (by rw [Host.perform]; rfl)
    | contains id type =>
      rw [Host.perform]
      exact hcharged.idle hcharged.slot rfl rfl rfl
    | status id =>
      rw [Host.perform]
      exact hcharged.idle hcharged.slot rfl rfl rfl
    | report =>
      rw [Host.perform]
      exact hcharged.idle hcharged.slot rfl rfl rfl
    | _ => cases huse

theorem Charged.actAll {calls : List Call} (hcharged : h.Charged calls) (actions : List Action) :
    (h.actAll actions).2.Charged ((h.actAll actions).1.foldl Call.extend calls) := by
  induction actions generalizing h calls with
  | nil => exact hcharged
  | cons action rest ih =>
    cases action with
    | addCache enabled => exact ih ⟨hcharged.slot, hcharged.counter⟩
    | openSession config =>
      refine ih ?_
      unfold openSession
      split
      · exact hcharged
      · exact ⟨hcharged.slot, hcharged.counter⟩
    | perform step => exact ih (hcharged.perform step)

end Host

namespace Call

variable {s : Schema} {call : Call}

/-- A panic fails with what it recovers, and any other failure is not internal. -/
theorem error_cases (h : call.1.AnswersFresh s call.2) :
    (∃ payload, call.1.payload? = some payload ∧ call.2.error? = some payload.recover) ∨
    call.1.payload? = none ∧ ∀ e, call.2.error? = some e → e.classOf ≠ .internal := by
  obtain ⟨step, reply⟩ := call
  cases h with
  | condition session input =>
    cases input with
    | panicked payload => exact .inl ⟨payload, rfl, rfl⟩
    | returned value =>
      refine .inr ⟨rfl, fun e he => ?_⟩
      change (Reply.condition ((Condition.ofValue value).run s.plan)).error? = some e at he
      cases hrun : (Condition.ofValue value).run s.plan with
      | ok built =>
        rw [hrun] at he
        cases he
      | error other =>
        rw [hrun] at he
        obtain rfl := Option.some.inj he
        exact Schema.classOf_ne_internal_of_condition hrun
  | update session input =>
    cases input with
    | panicked payload => exact .inl ⟨payload, rfl, rfl⟩
    | returned value =>
      refine .inr ⟨rfl, fun e he => ?_⟩
      change (Reply.update ((Assignments.ofValue _ value).run s.plan)).error? = some e at he
      cases hrun : (Assignments.ofValue session.config.dialect value).run s.plan with
      | ok built =>
        rw [hrun] at he
        cases he
      | error other =>
        rw [hrun] at he
        obtain rfl := Option.some.inj he
        exact Schema.classOf_ne_internal_of_update hrun
  | plan session type =>
    refine .inr ⟨rfl, fun e he => ?_⟩
    cases hplan : s.plan type with
    | ok plan =>
      rw [hplan] at he
      cases he
    | error other =>
      rw [hplan] at he
      obtain rfl := Option.some.inj he
      rw [Schema.classOf_of_plan_eq_error hplan]
      decide
  | _ => exact .inr ⟨rfl, nofun⟩

/-- A call is charged once if it fails, and once more if it panics with an error that is not
internal. -/
theorem charge_total (h : call.1.AnswersFresh s call.2) :
    ErrorClass.input.charge call + ErrorClass.schema.charge call + ErrorClass.value.charge call +
      ErrorClass.internal.charge call = call.failed.toNat + call.countedTwice.toNat := by
  unfold failed countedTwice
  simp only [ErrorClass.charge]
  obtain ⟨payload, hpayload, herror⟩ | ⟨hpayload, herror⟩ := error_cases h
  · rw [hpayload, herror]
    cases payload with
    | error e => cases hclass : e.classOf <;> simp [Payload.recover, hclass]
    | message text => rfl
    | other => rfl
  · rw [hpayload]
    cases he : call.2.error? with
    | none => rfl
    | some e =>
      have hclass := herror e he
      cases hside : e.classOf <;> simp_all

theorem charge_le_failed (h : call.1.AnswersFresh s call.2) (side : ErrorClass) :
    side.charge call ≤ call.failed.toNat := by
  unfold failed
  rw [ErrorClass.charge_eq]
  obtain ⟨payload, hpayload, herror⟩ | ⟨hpayload, herror⟩ := error_cases h
  · rw [hpayload, herror]
    split
    · exact Nat.le_refl 1
    · exact Bool.toNat_le _
  · rw [hpayload]
    split
    · exact Nat.zero_le _
    · cases call.2.error? with
      | none => exact Nat.le_refl 0
      | some e => exact Bool.toNat_le _

theorem countP_cons_toNat (p : Call → Bool) (call : Call) (calls : List Call) :
    (call :: calls).countP p = (p call).toNat + calls.countP p := by
  rw [List.countP_cons, Nat.add_comm]
  cases p call <;> rfl

theorem charged_total {calls : List Call} (h : ∀ call ∈ calls, call.1.AnswersFresh s call.2) :
    ErrorClass.input.charged calls + ErrorClass.schema.charged calls +
      ErrorClass.value.charged calls + ErrorClass.internal.charged calls =
        calls.countP failed + calls.countP countedTwice := by
  induction calls with
  | nil => rfl
  | cons call calls ih =>
    obtain ⟨hcall, hcalls⟩ := List.forall_mem_cons.1 h
    have hsum := ih hcalls
    have hone := charge_total hcall
    simp only [countP_cons_toNat, ErrorClass.charged, List.map_cons, List.sum_cons] at hsum ⊢
    omega

theorem charged_le_failed {calls : List Call} (h : ∀ call ∈ calls, call.1.AnswersFresh s call.2)
    (side : ErrorClass) : side.charged calls ≤ calls.countP failed := by
  induction calls with
  | nil => exact Nat.le_refl 0
  | cons call calls ih =>
    obtain ⟨hcall, hcalls⟩ := List.forall_mem_cons.1 h
    rw [countP_cons_toNat]
    exact Nat.add_le_add (charge_le_failed hcall side) (ih hcalls)

theorem mem_of_mem_sinceReset {calls : List Call} (h : call ∈ sinceReset calls) : call ∈ calls := by
  induction calls using List.reverseRecOn with
  | nil => exact h
  | append_singleton calls last ih =>
    rw [sinceReset, List.foldl_append, List.foldl_cons, List.foldl_nil] at h
    change call ∈ (if last.1.resets = true then [] else sinceReset calls ++ [last]) at h
    split at h
    · cases h
    · rcases List.mem_append.1 h with h | h
      · exact List.mem_append_left _ (ih h)
      · exact List.mem_append_right _ h

end Call

namespace Host

/-- In every run the failure counters add up to the calls that failed since they were last cleared, but
a call whose snapshot panics with an error that is not internal is counted twice. So they are as many
as the failed calls just when there was no such panic. -/
theorem failures_counted (s : Schema) (actions : List Action) :
    let run := (start s).actAll actions
    let calls := Call.sinceReset run.1
    let t := run.2.observer.counters.totals
    let counted := t.inputErrors + t.schemaErrors + t.valueErrors + t.panicsRecovered
    calls.countP Call.failed < 2 ^ 64 →
      counted = calls.countP Call.failed + calls.countP Call.countedTwice ∧
      (counted = calls.countP Call.failed ↔ ∀ call ∈ calls, call.countedTwice = false) := by
  intro run calls t counted hlt
  have hcharged : run.2.Charged calls := (charged_zero rfl rfl).actAll actions
  have hfresh : ∀ call ∈ calls, call.1.AnswersFresh s call.2 := by
    intro call hcall
    exact ((sound_start s).actAll actions).1 call (Call.mem_of_mem_sinceReset hcall)
  -- A call is charged at most once on each side, so no counter has reached its maximum.
  have hcounter : ∀ side : ErrorClass, side.counter t = side.charged calls := by
    intro side
    have hle := Call.charged_le_failed hfresh side
    rw [hcharged.counter side, Count.clamp_eq]
    omega
  have htotal : counted = calls.countP Call.failed + calls.countP Call.countedTwice := by
    rw [← Call.charged_total hfresh]
    simp only [← hcounter]
    rfl
  refine ⟨htotal, ?_⟩
  rw [htotal, Nat.add_eq_left, List.countP_eq_zero]
  simp

def failingRun : List Action :=
  [.perform (.condition ⟨⟨true, .mysql⟩, 0⟩ (.panicked (.message "boom"))),
    .perform (.update ⟨⟨true, .mysql⟩, 0⟩ (.returned .null))]

theorem failingRun_counted :
    let t := ((start ⟨[]⟩).actAll failingRun).2.observer.counters.totals
    (Call.sinceReset ((start ⟨[]⟩).actAll failingRun).1).countP Call.failed = 2 ∧
      t.inputErrors + t.schemaErrors + t.valueErrors + t.panicsRecovered = 2 := by
  have hfailed : (Call.sinceReset ((start ⟨[]⟩).actAll failingRun).1).countP Call.failed = 2 := by cbv
  have htwice : (Call.sinceReset ((start ⟨[]⟩).actAll failingRun).1).countP Call.countedTwice = 0 := by
    cbv
  obtain ⟨hcounted, -⟩ := failures_counted ⟨[]⟩ failingRun (by rw [hfailed]; decide)
  rw [hfailed, htwice] at hcounted
  exact ⟨hfailed, hcounted⟩

/-- A panic with an error about a value is one failed call and is counted on two sides. -/
theorem panicked_projection_counted_twice :
    ¬ ∀ (s : Schema) (actions : List Action),
      let run := (start s).actAll actions
      let calls := Call.sinceReset run.1
      let t := run.2.observer.counters.totals
      calls.countP Call.failed < 2 ^ 64 →
        calls.countP Call.failed =
          t.inputErrors + t.schemaErrors + t.valueErrors + t.panicsRecovered := by
  intro h
  have hcounted := h ⟨[]⟩
    [.perform (.condition ⟨⟨true, .mysql⟩, 0⟩ (.panicked (.error (.projection "int"))))] (by decide)
  revert hcounted
  decide

end Host

end Criteria
