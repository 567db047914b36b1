import Mathlib
import Criteria.Metrics.Observer
import Criteria.Proofs.Readings

set_option autoImplicit false

namespace Criteria

namespace Count

def clamp (n : Nat) : Nat := min n max

theorem clamp_eq (n : Nat) : clamp n = min n (2 ^ 64 - 1) := rfl

theorem clamp_le_clamp {m n : Nat} (h : m ≤ n) : clamp m ≤ clamp n := min_le_min_right max h

theorem add_clamp (m n : Nat) : add (clamp m) n = clamp (m + n) := by
  change min (min m max + n) max = min (m + n) max
  omega

/-- A part of a sum grows, perhaps only up to the maximum, and the sum grows as if it had not stopped
there. -/
theorem clamp_add_part {others part total n : Nat} (h : clamp (others + clamp part) = clamp total) :
    clamp (others + clamp (part + n)) = clamp (total + n) := by
  unfold clamp at *
  omega

end Count

namespace Keyed

variable {α : Type}

/-- Writing an entry changes a sum over the values only in the part of its key. -/
theorem sum_insertEntry (f : α → Nat) (key : String) (value : α) {entries : List (String × α)}
    (h : KeySorted entries) :
    ∃ others, (entries.map fun e => f e.2).sum = others + ((lookup key entries).map f).getD 0 ∧
      ((insertEntry key value entries).map fun e => f e.2).sum = others + f value := by
  induction entries with
  | nil => exact ⟨0, rfl, by simp [insertEntry]⟩
  | cons first rest ih =>
    obtain ⟨k, v⟩ := first
    obtain ⟨hfirst, hrest⟩ := List.pairwise_cons.1 h
    rw [insertEntry]
    split
    · rename_i hlt
      have hnew : key ∉ ((k, v) :: rest).map (·.1) := by
        intro hmem
        obtain ⟨e, he, rfl⟩ := List.mem_map.1 hmem
        rcases List.mem_cons.1 he with rfl | he
        · exact String.lt_irrefl _ hlt
        · exact String.lt_irrefl _ (String.lt_trans hlt (hfirst e he))
      rw [lookup_eq_none hnew]
      exact ⟨_, rfl, Nat.add_comm _ _⟩
    · split
      · rename_i heq
        rw [lookup, if_pos heq.symm]
        exact ⟨_, Nat.add_comm _ _, Nat.add_comm _ _⟩
      · rename_i hne
        obtain ⟨others, hold, hnew⟩ := ih hrest
        rw [lookup, if_neg fun heq => hne heq.symm]
        refine ⟨f v + others, ?_, ?_⟩
        · rw [List.map_cons, List.sum_cons, hold, Nat.add_assoc]
        · rw [List.map_cons, List.sum_cons, hnew, Nat.add_assoc]

end Keyed

def Event.type? : Event → Option String
  | .planned type _ => some type
  | .cacheHit type => some type
  | .conditionBuilt type _ => some type
  | .assignmentsBuilt type _ => some type
  | .failed _ => none
  | .panicRecovered => none

inductive Tally where
  | plansMade
  | cacheHits
  | conditionsBuilt
  | conditionsEmpty
  | updatesBuilt
  | updateColumns

namespace Tally

def ofTotals : Tally → Totals → Nat
  | .plansMade => Totals.plansMade
  | .cacheHits => Totals.cacheHits
  | .conditionsBuilt => Totals.conditionsBuilt
  | .conditionsEmpty => Totals.conditionsEmpty
  | .updatesBuilt => Totals.updatesBuilt
  | .updateColumns => Totals.updateColumns

def ofType : Tally → TypeCounts → Nat
  | .plansMade => TypeCounts.plansMade
  | .cacheHits => TypeCounts.cacheHits
  | .conditionsBuilt => TypeCounts.conditionsBuilt
  | .conditionsEmpty => TypeCounts.conditionsEmpty
  | .updatesBuilt => TypeCounts.updatesBuilt
  | .updateColumns => TypeCounts.updateColumns

def weight : Tally → Event → Nat
  | .plansMade, .planned _ _ => 1
  | .cacheHits, .cacheHit _ => 1
  | .conditionsBuilt, .conditionBuilt _ _ => 1
  | .conditionsEmpty, .conditionBuilt _ empty => empty.toNat
  | .updatesBuilt, .assignmentsBuilt _ _ => 1
  | .updateColumns, .assignmentsBuilt _ columns => columns
  | _, _ => 0

def total (t : Tally) (events : List Event) : Nat := (events.map t.weight).sum

variable {t : Tally} {e : Event}

theorem total_append (t : Tally) (before after : List Event) :
    t.total (before ++ after) = t.total before + t.total after := by
  simp [total]

theorem total_singleton (t : Tally) (e : Event) : t.total [e] = t.weight e := by
  simp [total]

theorem total_conditionsEmpty_le (events : List Event) :
    conditionsEmpty.total events ≤ conditionsBuilt.total events := by
  refine List.sum_le_sum fun e _ => ?_
  cases e with
  | conditionBuilt type empty => exact Bool.toNat_le empty
  | _ => exact Nat.le_refl 0

theorem ofTotals_addTotals {totals : Totals} {n : Nat} (h : t.ofTotals totals = Count.clamp n)
    (e : Event) : t.ofTotals (Counters.addTotals totals e) = Count.clamp (n + t.weight e) := by
  cases e with
  | failed side => cases side <;> cases t <;> exact h
  | panicRecovered => cases t <;> exact h
  | _ => cases t <;> simp_all [ofTotals, Counters.addTotals, weight, Count.add_clamp]

/-- An event counts for no type, and then for nothing here, or it changes the counts of its type. -/
theorem typeChange_cases (e : Event) :
    (e.type? = none ∧ Counters.typeChange e = none ∧ ∀ t : Tally, t.weight e = 0) ∨
    ∃ name change, e.type? = some name ∧ Counters.typeChange e = some (name, change) ∧
      ∀ (t : Tally) counts n, t.ofType counts = Count.clamp n →
        t.ofType (change counts) = Count.clamp (n + t.weight e) := by
  cases e with
  | failed side => exact .inl ⟨rfl, rfl, by intro t; cases t <;> rfl⟩
  | panicRecovered => exact .inl ⟨rfl, rfl, by intro t; cases t <;> rfl⟩
  | _ =>
    refine .inr ⟨_, _, rfl, rfl, fun t counts n h => ?_⟩
    cases t <;> simp_all [ofType, weight, Count.add_clamp]

end Tally

namespace Counters

def countsOf (c : Counters) (name : String) : TypeCounts := (c.types.get? name).getD {}

/-- The counters hold the totals of the events, and for each type those of its own events. -/
structure Holds (c : Counters) (events : List Event) : Prop where
  ofTotals : ∀ t : Tally, t.ofTotals c.totals = Count.clamp (t.total events)
  ofType : ∀ (t : Tally) name, t.ofType (c.countsOf name) =
    Count.clamp (t.total (events.filter fun e => e.type? = some name))
  sum : ∀ t : Tally,
    Count.clamp (c.types.toList.map fun entry => t.ofType entry.2).sum = Count.clamp (t.total events)

variable {c : Counters} {events : List Event}

theorem holds_zero : zero.Holds [] := by
  refine ⟨fun t => ?_, fun t name => ?_, fun t => rfl⟩
  · cases t <;> rfl
  · cases t <;> rfl

theorem countsOf_apply_of_none {e : Event} (h : typeChange e = none) (name : String) :
    (c.apply e).countsOf name = c.countsOf name := by
  simp only [apply, countsOf, h]

theorem countsOf_apply {e : Event} {name : String} {change : TypeCounts → TypeCounts}
    (h : typeChange e = some (name, change)) (other : String) :
    (c.apply e).countsOf other =
      if name = other then change (c.countsOf name) else c.countsOf other := by
  simp only [apply, countsOf, h, Keyed.alter, Keyed.get?_insert]
  split <;> rfl

theorem ofType_countsOf (t : Tally) (c : Counters) (name : String) :
    t.ofType (c.countsOf name) = ((c.types.get? name).map t.ofType).getD 0 := by
  unfold countsOf
  cases c.types.get? name with
  | none => cases t <;> rfl
  | some counts => rfl

/-- The step: one more event is counted in total and for its type alone. -/
theorem Holds.apply (h : c.Holds events) (e : Event) : (c.apply e).Holds (events ++ [e]) := by
  have htotal : ∀ t : Tally, t.total (events ++ [e]) = t.total events + t.weight e := by
    intro t
    rw [Tally.total_append, Tally.total_singleton]
  have htotals : ∀ t : Tally, t.ofTotals (c.apply e).totals = Count.clamp (t.total (events ++ [e])) := by
    intro t
    rw [htotal]
    exact Tally.ofTotals_addTotals (h.ofTotals t) e
  obtain ⟨htype, hnone, hweight⟩ | ⟨name, change, htype, hchange, hadds⟩ := Tally.typeChange_cases e
  · refine ⟨htotals, fun t other => ?_, fun t => ?_⟩
    · rw [countsOf_apply_of_none hnone, h.ofType, List.filter_append]
      simp [htype]
    · rw [htotal, hweight, Nat.add_zero, ← h.sum]
      simp only [Counters.apply, hnone]
  · refine ⟨htotals, fun t other => ?_, fun t => ?_⟩
    · rw [countsOf_apply hchange, List.filter_append, Tally.total_append]
      split
      · rename_i heq
        subst heq
        rw [hadds t _ _ (h.ofType t name)]
        simp [htype, Tally.total_singleton]
      · rename_i hne
        rw [h.ofType]
        simp [htype, hne, Tally.total]
    · -- The sum over the types changes only in the counts of this one.
      obtain ⟨others, hold, hnew⟩ :=
        Keyed.sum_insertEntry t.ofType name (change (c.countsOf name)) c.types.sorted
      have hpart := h.ofType t name
      have hbefore := h.sum t
      rw [hold, ← Keyed.get?, ← ofType_countsOf, hpart] at hbefore
      have htypes : (c.apply e).types.toList =
          Keyed.insertEntry name (change (c.countsOf name)) c.types.toList := by
        simp only [Counters.apply, hchange]
        rfl
      rw [htypes, hnew, hadds t _ _ hpart, htotal]
      exact Count.clamp_add_part hbefore

end Counters

inductive Signal where
  | event (e : Event)
  | reset

namespace Signal

def extend (events : List Event) : Signal → List Event
  | .event e => events ++ [e]
  | .reset => []

def sinceReset (signals : List Signal) : List Event := signals.foldl extend []

end Signal

namespace Observer

def signal (o : Observer) : Signal → Observer
  | .event e => o.record e
  | .reset => o.reset

def signalAll (o : Observer) (signals : List Signal) : Observer := signals.foldl signal o

theorem record_of_no_sink {o : Observer} (h : o.slot = none) (e : Event) :
    o.record e = { o with counters := o.counters.apply e } := by
  simp only [record, h]

/-- Without a sink every event is counted. -/
theorem holds_signalAll (signals : List Signal) :
    (start.signalAll signals).slot = none ∧
      (start.signalAll signals).counters.Holds (Signal.sinceReset signals) := by
  induction signals using List.reverseRecOn with
  | nil => exact ⟨rfl, Counters.holds_zero⟩
  | append_singleton signals last ih =>
    obtain ⟨hslot, hholds⟩ := ih
    have hobserver : start.signalAll (signals ++ [last]) = (start.signalAll signals).signal last := by
      simp [signalAll]
    have hevents : Signal.sinceReset (signals ++ [last]) =
        Signal.extend (Signal.sinceReset signals) last := by
      simp [Signal.sinceReset]
    rw [hobserver, hevents]
    cases last with
    | reset => exact ⟨hslot, Counters.holds_zero⟩
    | event e =>
      rw [signal, record_of_no_sink hslot]
      exact ⟨hslot, hholds.apply e⟩

/-- After any events and resets every counter holds the clamped total of the events since the last
reset, in all and for each type, and the counters of all types add up to that of all calls, clamped
likewise. No more empty conditions are counted than conditions. -/
theorem counters_signalAll (signals : List Signal) (t : Tally) :
    let c := (start.signalAll signals).counters
    let events := Signal.sinceReset signals
    t.ofTotals c.totals = min (t.total events) (2 ^ 64 - 1) ∧
      t.ofTotals c.totals =
        min (c.types.toList.map fun entry => t.ofType entry.2).sum (2 ^ 64 - 1) ∧
      (∀ name, t.ofType (c.countsOf name) =
        min (t.total (events.filter fun e => e.type? = some name)) (2 ^ 64 - 1)) ∧
      c.totals.conditionsEmpty ≤ c.totals.conditionsBuilt ∧
      ∀ name, (c.countsOf name).conditionsEmpty ≤ (c.countsOf name).conditionsBuilt := by
  intro c events
  have h : c.Holds events := (holds_signalAll signals).2
  simp only [← Count.clamp_eq]
  refine ⟨h.ofTotals t, (h.ofTotals t).trans (h.sum t).symm, h.ofType t, ?_, fun name => ?_⟩
  · have hempty : c.totals.conditionsEmpty = _ := h.ofTotals .conditionsEmpty
    have hbuilt : c.totals.conditionsBuilt = _ := h.ofTotals .conditionsBuilt
    rw [hempty, hbuilt]
    exact Count.clamp_le_clamp (Tally.total_conditionsEmpty_le events)
  · have hempty : (c.countsOf name).conditionsEmpty = _ := h.ofType .conditionsEmpty name
    have hbuilt : (c.countsOf name).conditionsBuilt = _ := h.ofType .conditionsBuilt name
    rw [hempty, hbuilt]
    exact Count.clamp_le_clamp (Tally.total_conditionsEmpty_le _)

end Observer

end Criteria
