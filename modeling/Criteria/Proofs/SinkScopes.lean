import Criteria.Metrics.Observer

/-!
Scopes of sinks. A program reports events, opens scopes, panics, and runs parts of itself behind the panic
boundary, nested in any way; what follows may depend on what came out before. An observer knows only one
slot, which a scope sets and puts back. The trace of a program keeps the scopes that are running as a stack
instead. The slot always holds the top of that stack, so both deliver every event to the same place.
-/

set_option autoImplicit false

namespace Criteria

inductive Program : Type → Type 1 where
  | done {α : Type} (a : α) : Program α
  | emit (event : Event) : Program Unit
  | panic {α : Type} (payload : Payload) : Program α
  | andThen {α β : Type} (first : Program α) (next : α → Program β) : Program β
  | within {α : Type} (sink : SinkId) (body : Program α) : Program α
  | guard {α : Type} (body : Program (Except Error α)) : Program (Except Error α)

/-- An event with the scopes that are running when it is reported, the innermost first. -/
structure Occurrence where
  running : List SinkId
  event : Event

def Occurrence.receiver (occurrence : Occurrence) : Option SinkId := occurrence.running.head?

structure Trace (α : Type) where
  outcome : Outcome α
  events : List Occurrence

namespace Program

def run {α : Type} : Program α → Observed α
  | .done a => fun o => (.returned a, o)
  | .emit event => Observed.emit event
  | .panic payload => Observed.panic payload
  | .andThen first next => first.run.andThen fun a => (next a).run
  | .within sink body => Observed.within sink body.run
  | .guard body => body.run.guard

/-- What a program reports in the scopes that are running. A recovered panic is reported where the boundary
is, after all scopes inside of it have been left. -/
def trace {α : Type} : Program α → List SinkId → Trace α
  | .done a, _ => ⟨.returned a, []⟩
  | .emit event, running => ⟨.returned (), [⟨running, event⟩]⟩
  | .panic payload, _ => ⟨.panicked payload, []⟩
  | .andThen first next, running =>
    match first.trace running with
    | ⟨.returned a, events⟩ =>
      let rest := (next a).trace running
      ⟨rest.outcome, events ++ rest.events⟩
    | ⟨.panicked payload, events⟩ => ⟨.panicked payload, events⟩
  | .within sink body, running => body.trace (sink :: running)
  | .guard body, running =>
    let t := body.trace running
    ⟨.returned t.outcome.settle, t.events ++ t.outcome.recovery.map (⟨running, ·⟩)⟩

/-- While a program runs from an observer in the scopes `running`, a part of it is run from another
observer and in other scopes. -/
inductive Reaches : {α β : Type} → Program α → Observer → List SinkId →
    Program β → Observer → List SinkId → Prop where
  | whole {α : Type} (p : Program α) (o : Observer) (running : List SinkId) :
    Reaches p o running p o running
  | first {α β γ : Type} {first : Program α} {next : α → Program β} {part : Program γ}
      {o inner : Observer} {running scopes : List SinkId}
      (h : Reaches first o running part inner scopes) :
    Reaches (.andThen first next) o running part inner scopes
  | next {α β γ : Type} {first : Program α} {next : α → Program β} {part : Program γ} {a : α}
      {o between inner : Observer} {running scopes : List SinkId}
      (hfirst : first.run o = (.returned a, between))
      (h : Reaches (next a) between running part inner scopes) :
    Reaches (.andThen first next) o running part inner scopes
  | within {α β : Type} {sink : SinkId} {body : Program α} {part : Program β}
      {o inner : Observer} {running scopes : List SinkId}
      (h : Reaches body (o.install sink) (sink :: running) part inner scopes) :
    Reaches (.within sink body) o running part inner scopes
  | guard {α β : Type} {body : Program (Except Error α)} {part : Program β}
      {o inner : Observer} {running scopes : List SinkId}
      (h : Reaches body o running part inner scopes) :
    Reaches (.guard body) o running part inner scopes

end Program

namespace Observer

variable {o : Observer} {running : List SinkId}

def deliver (o : Observer) (occurrence : Occurrence) : Observer :=
  match occurrence.receiver with
  | some sink => { o with received := o.received ++ [(sink, occurrence.event)] }
  | none => { o with counters := o.counters.apply occurrence.event }

def deliverAll (o : Observer) (events : List Occurrence) : Observer := events.foldl deliver o

theorem deliverAll_cons (o : Observer) (event : Occurrence) (events : List Occurrence) :
    o.deliverAll (event :: events) = (o.deliver event).deliverAll events := rfl

/-- While the slot holds the innermost scope, an event goes where the stack sends it. -/
theorem record_eq_deliver (h : running.head? = o.slot) (event : Event) :
    o.record event = o.deliver ⟨running, event⟩ := by
  cases hslot : o.slot with
  | none => simp only [record, deliver, Occurrence.receiver, h, hslot]
  | some sink => simp only [record, deliver, Occurrence.receiver, h, hslot]

theorem slot_deliver (o : Observer) (occurrence : Occurrence) :
    (o.deliver occurrence).slot = o.slot := by
  unfold deliver
  split <;> rfl

theorem deliver_slot (o : Observer) (slot : Option SinkId) (occurrence : Occurrence) :
    { o with slot := slot }.deliver occurrence = { o.deliver occurrence with slot := slot } := by
  unfold deliver
  split <;> rfl

theorem deliverAll_append (o : Observer) (before after : List Occurrence) :
    o.deliverAll (before ++ after) = (o.deliverAll before).deliverAll after :=
  List.foldl_append

theorem slot_deliverAll (o : Observer) (events : List Occurrence) :
    (o.deliverAll events).slot = o.slot := by
  induction events generalizing o with
  | nil => rfl
  | cons event events ih => exact (ih (o.deliver event)).trans (slot_deliver o event)

theorem deliverAll_slot (o : Observer) (slot : Option SinkId) (events : List Occurrence) :
    { o with slot := slot }.deliverAll events = { o.deliverAll events with slot := slot } := by
  induction events generalizing o with
  | nil => rfl
  | cons event events ih =>
    rw [deliverAll_cons, deliver_slot, deliverAll_cons]
    exact ih (o.deliver event)

/-- What happens in a scope happens as if its sink had been there all the time. -/
theorem restore_deliverAll_install (o : Observer) (sink : SinkId) (events : List Occurrence) :
    ((o.install sink).deliverAll events).restore o = o.deliverAll events := by
  rw [install, deliverAll_slot, restore, ← slot_deliverAll o events]

theorem recordAll_eq_deliverAll (h : running.head? = o.slot) (events : List Event) :
    o.recordAll events = o.deliverAll (events.map (⟨running, ·⟩)) := by
  induction events generalizing o with
  | nil => rfl
  | cons event events ih =>
    change (o.record event).recordAll events = _
    rw [List.map_cons, deliverAll_cons, record_eq_deliver h]
    exact ih (h.trans (slot_deliver o ⟨running, event⟩).symm)

def reaching (receiver : Option SinkId) (events : List Occurrence) : List Event :=
  (events.filter fun e => e.receiver = receiver).map (·.event)

def sent (events : List Occurrence) : List (SinkId × Event) :=
  events.filterMap fun e => e.receiver.map (·, e.event)

theorem received_deliverAll (o : Observer) (events : List Occurrence) :
    (o.deliverAll events).received = o.received ++ sent events := by
  induction events generalizing o with
  | nil => simp [deliverAll, sent]
  | cons event events ih =>
    rw [deliverAll_cons, ih, deliver]
    cases h : event.receiver with
    | none => simp [sent, h]
    | some sink => simp [sent, h]

theorem receivedBy_deliverAll (o : Observer) (sink : SinkId) (events : List Occurrence) :
    (o.deliverAll events).receivedBy sink = o.receivedBy sink ++ reaching (some sink) events := by
  induction events generalizing o with
  | nil => simp [deliverAll, reaching]
  | cons event events ih =>
    rw [deliverAll_cons, ih, deliver]
    cases h : event.receiver with
    | none => simp [receivedBy, reaching, h]
    | some owner =>
      by_cases howner : owner = sink
      · simp [receivedBy, reaching, h, howner]
      · simp [receivedBy, reaching, h, howner]

theorem counters_deliverAll (o : Observer) (events : List Occurrence) :
    (o.deliverAll events).counters = o.counters.applyAll (reaching none events) := by
  induction events generalizing o with
  | nil => rfl
  | cons event events ih =>
    rw [deliverAll_cons, ih, deliver]
    cases h : event.receiver with
    | none => simp [reaching, h, Counters.applyAll]
    | some sink => simp [reaching, h]

end Observer

namespace Program

variable {α : Type} {o : Observer} {running : List SinkId}

/-- A run delivers the trace. A scope changes both the slot and the stack, so the induction on the program is
for all observers whose slot holds the top of the stack. -/
theorem run_eq_trace (p : Program α) (h : running.head? = o.slot) :
    p.run o = ((p.trace running).outcome, o.deliverAll (p.trace running).events) := by
  induction p generalizing o running with
  | done a => rfl
  | emit event => exact congrArg (Outcome.returned (), ·) (Observer.record_eq_deliver h event)
  | panic payload => rfl
  | andThen first next ihFirst ihNext =>
    simp only [run, Observed.andThen, trace]
    rw [ihFirst h]
    obtain ⟨outcome, events⟩ := first.trace running
    cases outcome with
    | panicked payload => rfl
    | returned a =>
      -- the first part has left the slot as it was, so the rest starts under the same stack
      have hbetween : running.head? = (o.deliverAll events).slot :=
        h.trans (Observer.slot_deliverAll o events).symm
      exact (ihNext a hbetween).trans (by rw [Observer.deliverAll_append])
  | within sink body ih =>
    simp only [run, Observed.within, trace]
    have hinstalled : (sink :: running).head? = (o.install sink).slot := rfl
    rw [ih hinstalled]
    exact congrArg _ (Observer.restore_deliverAll_install o sink _)
  | guard body ih =>
    simp only [run, Observed.guard, trace]
    rw [ih h]
    have hafter : running.head? = (o.deliverAll (body.trace running).events).slot :=
      h.trans (Observer.slot_deliverAll o _).symm
    rw [Observer.recordAll_eq_deliverAll hafter, Observer.deliverAll_append]

/-- However a program ends, the slot holds what it held at first. -/
theorem slot_run (p : Program α) (h : running.head? = o.slot) : (p.run o).2.slot = o.slot := by
  rw [run_eq_trace p h]
  exact Observer.slot_deliverAll o _

/-- The slot follows the stack: whatever part is reached, the slot holds the innermost scope. -/
theorem slot_of_reaches {β : Type} {p : Program α} {part : Program β} {inner : Observer}
    {scopes : List SinkId} (h : Reaches p o running part inner scopes)
    (hslot : running.head? = o.slot) : scopes.head? = inner.slot := by
  induction h with
  | whole p o running => exact hslot
  | first h ih => exact ih hslot
  | @next _ _ _ first _ _ _ _ _ _ _ _ hfirst h ih =>
    have hbetween := slot_run first hslot
    rw [hfirst] at hbetween
    exact ih (hslot.trans hbetween.symm)
  | within h ih => exact ih rfl
  | guard h ih => exact ih hslot

/-- Every event goes to the sink of its innermost scope, and to the counters if there is none, in the order
of the reports. Every part that is reached, each scope and each boundary among them, leaves the slot as it
found it, also by a panic, and a recovered panic is reported in the scopes of its boundary. -/
theorem scoped_delivery (p : Program α) (o : Observer) :
    let t := p.trace o.slot.toList
    (p.run o).1 = t.outcome ∧
      (p.run o).2.slot = o.slot ∧
      (p.run o).2.received = o.received ++ Observer.sent t.events ∧
      (∀ sink, (p.run o).2.receivedBy sink =
        o.receivedBy sink ++ Observer.reaching (some sink) t.events) ∧
      (p.run o).2.counters = o.counters.applyAll (Observer.reaching none t.events) ∧
      (∀ {β : Type} (part : Program β) (inner : Observer) (scopes : List SinkId),
        Reaches p o o.slot.toList part inner scopes →
          inner.slot = scopes.head? ∧ (part.run inner).2.slot = inner.slot) ∧
      (∀ (event : Event) (inner : Observer) (scopes : List SinkId),
        Reaches p o o.slot.toList (.emit event) inner scopes →
          Observed.emit event inner = (.returned (), inner.deliver ⟨scopes, event⟩)) ∧
      ∀ {β : Type} (body : Program (Except Error β)) (inner after : Observer)
        (scopes : List SinkId) (payload : Payload),
        Reaches p o o.slot.toList (.guard body) inner scopes →
        body.run inner = (.panicked payload, after) →
          body.run.guard inner =
            (.returned (.error payload.recover), after.deliver ⟨scopes, .panicRecovered⟩) := by
  intro t
  have hslot : o.slot.toList.head? = o.slot := by cases o.slot <;> rfl
  have hrun : p.run o = (t.outcome, o.deliverAll t.events) := run_eq_trace p hslot
  rw [hrun]
  refine ⟨rfl, Observer.slot_deliverAll o _, Observer.received_deliverAll o _,
    fun sink => Observer.receivedBy_deliverAll o sink _, Observer.counters_deliverAll o _, ?_, ?_, ?_⟩
  · intro β part inner scopes hreached
    have hinner := slot_of_reaches hreached hslot
    exact ⟨hinner.symm, slot_run part hinner⟩
  · intro event inner scopes hreached
    exact run_eq_trace (.emit event) (slot_of_reaches hreached hslot)
  · intro β body inner after scopes payload hreached hbody
    have hinner := slot_of_reaches hreached hslot
    have hafter : scopes.head? = after.slot := by
      have hkept := slot_run body hinner
      rw [hbody] at hkept
      exact hinner.trans hkept.symm
    rw [Observed.guard, hbody]
    exact congrArg (_, ·) (Observer.record_eq_deliver hafter .panicRecovered)

def interrupted : Program (Except Error Nat) :=
  .andThen (.emit (.cacheHit "User")) fun _ => .panic .other

/-- The report goes to the inner scope and the panic to the outer one, where the boundary is. -/
theorem interrupted_in_scopes :
    let p : Program (Except Error Nat) := .within 0 (.guard (.within 1 interrupted))
    (p.run .start).2.slot = none ∧ (p.run .start).2.receivedBy 0 = [.panicRecovered] ∧
      (p.run .start).2.receivedBy 1 = [.cacheHit "User"] ∧
      ∃ after, (Program.within 1 interrupted).run (Observer.start.install 0) = (.panicked .other, after) ∧
        ((Program.within 1 interrupted).run.guard (Observer.start.install 0)).2 =
          after.deliver ⟨[0], .panicRecovered⟩ := by
  intro p
  obtain ⟨-, hslot, -, hreceived, -, -, -, hguard⟩ := scoped_delivery p .start
  refine ⟨hslot, hreceived 0, hreceived 1, _, rfl, ?_⟩
  exact congrArg Prod.snd (hguard _ _ _ _ _ (.within (.whole _ _ _)) rfl)

end Program

end Criteria
