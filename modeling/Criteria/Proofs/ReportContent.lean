import Mathlib
import Criteria.Metrics.Report
import Criteria.Proofs.CounterTotals
import Criteria.Proofs.KeyedListings
import Criteria.Proofs.WordFloats

set_option autoImplicit false

namespace Criteria

namespace Tally

def counts : Tally → String → Event → Bool
  | .plansMade, name, .planned type _ => type = name
  | .cacheHits, name, .cacheHit type => type = name
  | .conditionsBuilt, name, .conditionBuilt type _ => type = name
  | .conditionsEmpty, name, .conditionBuilt type empty => type = name && empty
  | .updatesBuilt, name, .assignmentsBuilt type _ => type = name
  | _, _, _ => false

variable {t : Tally} {name : String} {e : Event}

theorem weight_eq_counts (ht : t ≠ .updateColumns) (h : e.type? = some name) :
    t.weight e = (t.counts name e).toNat := by
  cases e <;> cases h <;> cases t <;> simp_all [counts, weight]

theorem counts_eq_false (h : e.type? ≠ some name) : t.counts name e = false := by
  cases t <;> cases e <;> simp_all [counts, Event.type?]

/-- The total of the events for a type is their number. -/
theorem total_eq_countP (ht : t ≠ .updateColumns) (name : String) (events : List Event) :
    t.total (events.filter fun e => e.type? = some name) = events.countP (t.counts name) := by
  induction events with
  | nil => rfl
  | cons e events ih =>
    by_cases h : e.type? = some name
    · rw [List.filter_cons_of_pos (by simpa using h), List.countP_cons, ← ih, total, List.map_cons,
        List.sum_cons, weight_eq_counts ht h, Nat.add_comm]
      cases t.counts name e <;> rfl
    · rw [List.filter_cons_of_neg (by simpa using h), ih,
        List.countP_cons_of_neg (by simp [counts_eq_false h])]

/-- No event is numbered both as a condition and as an update. -/
theorem countP_built_le (name : String) (events : List Event) :
    events.countP (conditionsBuilt.counts name) + events.countP (updatesBuilt.counts name) ≤
      events.length := by
  rw [List.length_eq_countP_add_countP (conditionsBuilt.counts name)]
  refine Nat.add_le_add_left (List.countP_mono_left fun e _ hupdate => ?_) _
  cases e with
  | assignmentsBuilt => rfl
  | _ => cases hupdate

end Tally

namespace TypeSummary

variable {a b : TypeSummary}

def Precedes (a b : TypeSummary) : Prop :=
  b.busyness < a.busyness ∨ a.busyness = b.busyness ∧ a.name < b.name

theorem before_iff :
    a.before b = true ↔ b.busyness < a.busyness ∨ a.busyness = b.busyness ∧ a.name ≤ b.name := by
  simp [before]

theorem before_trans (a b c : TypeSummary) (hab : a.before b = true) (hbc : b.before c = true) :
    a.before c = true := by
  rw [before_iff] at *
  rcases hab with hab | ⟨hab, hname⟩
  · exact .inl (by omega)
  · rcases hbc with hbc | ⟨hbc, hother⟩
    · exact .inl (by omega)
    · exact .inr ⟨hab.trans hbc, String.le_trans hname hother⟩

theorem before_total (a b : TypeSummary) : (a.before b || b.before a) = true := by
  rw [Bool.or_eq_true, before_iff, before_iff]
  rcases Nat.lt_trichotomy a.busyness b.busyness with h | h | h
  · exact .inr (.inl h)
  · exact (String.le_total a.name b.name).imp (fun hname => .inr ⟨h, hname⟩) fun hname =>
      .inr ⟨h.symm, hname⟩
  · exact .inl (.inl h)

theorem Precedes.of_before (h : a.before b = true) (hname : a.name ≠ b.name) : a.Precedes b := by
  refine (before_iff.1 h).imp_right fun ⟨hbusy, hle⟩ => ⟨hbusy, ?_⟩
  exact String.not_le.1 fun hge => hname (String.le_antisymm hle hge)

end TypeSummary

namespace Counters

variable {c : Counters} {events : List Event} {name : String}

theorem get?_apply_isSome_iff (c : Counters) (e : Event) (name : String) :
    (∃ counts, (c.apply e).types.get? name = some counts) ↔
      (∃ counts, c.types.get? name = some counts) ∨ e.type? = some name := by
  obtain ⟨htype, hnone, -⟩ | ⟨other, change, htype, hchange, -⟩ := Tally.typeChange_cases e
  · simp [apply, hnone, htype]
  · simp only [apply, hchange, htype, Keyed.get?_alter, Option.some.injEq]
    by_cases hname : other = name
    · simp [hname]
    · simp [hname]

/-- A type has counts if some event was counted for it. -/
theorem get?_applyAll_isSome_iff (events : List Event) (name : String) :
    (∃ counts, (zero.applyAll events).types.get? name = some counts) ↔
      ∃ e ∈ events, e.type? = some name := by
  induction events using List.reverseRecOn with
  | nil => simp [applyAll, zero]
  | append_singleton events last ih =>
    rw [applyAll, List.foldl_append]
    change (∃ counts, ((zero.applyAll events).apply last).types.get? name = some counts) ↔ _
    rw [get?_apply_isSome_iff, ih]
    simp only [List.mem_append, List.mem_singleton, or_and_right, exists_or, exists_eq_left]

theorem summaries_perm (c : Counters) :
    c.summaries.Perm (c.types.toList.map fun entry => entry.2.summary entry.1) :=
  List.mergeSort_perm _ _

theorem names_summaries_perm (c : Counters) :
    (c.summaries.map (·.name)).Perm (c.types.toList.map (·.1)) := by
  have h := c.summaries_perm.map (·.name)
  rwa [List.map_map] at h

theorem exists_of_mem_summaries {t : TypeSummary} (h : t ∈ c.summaries) :
    t = (c.countsOf t.name).summary t.name := by
  obtain ⟨⟨name, counts⟩, hmem, rfl⟩ := List.mem_map.1 (c.summaries_perm.mem_iff.1 h)
  have hget : c.types.get? name = some counts := (c.types.mem_toList_iff _).1 hmem
  simp [countsOf, TypeCounts.summary, hget]

/-- No two summaries have one name, so the order is strict. -/
theorem pairwise_precedes_summaries (c : Counters) : c.summaries.Pairwise TypeSummary.Precedes := by
  have hnames : c.summaries.Pairwise fun a b => a.name ≠ b.name :=
    List.pairwise_map.1 (c.names_summaries_perm.nodup_iff.2 c.types.keys_nodup)
  have hsorted : c.summaries.Pairwise fun a b => a.before b = true := by
    rw [summaries]
    exact List.pairwise_mergeSort TypeSummary.before_trans TypeSummary.before_total _
  exact hsorted.imp₂ (fun _ _ => .of_before) hnames

/-- Below the maximum the counts of a type are the numbers of its events. -/
theorem Holds.ofType_eq_countP (h : c.Holds events) (hlength : events.length < 2 ^ 64) {t : Tally}
    (ht : t ≠ .updateColumns) (name : String) :
    t.ofType (c.countsOf name) = events.countP (t.counts name) := by
  have hle : events.countP (t.counts name) ≤ events.length := List.countP_le_length
  rw [h.ofType, Tally.total_eq_countP ht, Count.clamp_eq]
  omega

end Counters

/-- The numbers of the events for a type, and what is computed from them: a sum that fits into a word, and
an average that is no division by zero. -/
structure TypeSummary.Describes (t : TypeSummary) (events : List Event) : Prop where
  plansMade : t.plansMade = events.countP (Tally.plansMade.counts t.name)
  cacheHits : t.cacheHits = events.countP (Tally.cacheHits.counts t.name)
  conditionsBuilt : t.conditionsBuilt = events.countP (Tally.conditionsBuilt.counts t.name)
  conditionsEmpty : t.conditionsEmpty = events.countP (Tally.conditionsEmpty.counts t.name)
  updatesBuilt : t.updatesBuilt = events.countP (Tally.updatesBuilt.counts t.name)
  busyness_lt : t.conditionsBuilt + t.updatesBuilt < 2 ^ 64
  average_of_none : t.updatesBuilt = 0 → t.averageColumns = 0.0
  average_of_some : t.updatesBuilt ≠ 0 →
    ((UInt64.ofNat t.updatesBuilt).toFloat == 0.0) = false ∧
      ∃ columns, columns = min (Tally.updateColumns.total
          (events.filter fun e => e.type? = some t.name)) (2 ^ 64 - 1) ∧
        t.averageColumns = (UInt64.ofNat columns).toFloat / (UInt64.ofNat t.updatesBuilt).toFloat

theorem Counters.Holds.describes {c : Counters} {events : List Event} (h : c.Holds events)
    (hlength : events.length < 2 ^ 64) (name : String) :
    ((c.countsOf name).summary name).Describes events := by
  have hexact : ∀ t : Tally, t ≠ .updateColumns → t.ofType (c.countsOf name) = _ :=
    fun t ht => h.ofType_eq_countP hlength ht name
  have hbuilt : (c.countsOf name).conditionsBuilt + (c.countsOf name).updatesBuilt ≤ events.length := by
    have hle := Tally.countP_built_le name events
    rwa [← hexact .conditionsBuilt nofun, ← hexact .updatesBuilt nofun] at hle
  refine
    { plansMade := hexact .plansMade nofun
      cacheHits := hexact .cacheHits nofun
      conditionsBuilt := hexact .conditionsBuilt nofun
      conditionsEmpty := hexact .conditionsEmpty nofun
      updatesBuilt := hexact .updatesBuilt nofun
      busyness_lt := hbuilt.trans_lt hlength
      average_of_none := fun hnone => if_pos hnone
      average_of_some := fun hsome => ⟨?_, _, h.ofType .updateColumns name, if_neg hsome⟩ }
  have hlt : (c.countsOf name).updatesBuilt < 2 ^ 64 := by omega
  exact WordFloat.toFloat_beq_zero (Nat.pos_of_ne_zero hsome) hlt

namespace Observer

/-- Without a sink the counters are those of the events since the last reset. -/
theorem counters_eq_applyAll (signals : List Signal) :
    (start.signalAll signals).counters = Counters.zero.applyAll (Signal.sinceReset signals) := by
  induction signals using List.reverseRecOn with
  | nil => rfl
  | append_singleton signals last ih =>
    have hslot := (holds_signalAll signals).1
    rw [signalAll, Signal.sinceReset, List.foldl_append, List.foldl_append]
    cases last with
    | reset => rfl
    | event e =>
      change ((start.signalAll signals).record e).counters =
        Counters.zero.applyAll (Signal.sinceReset signals ++ [e])
      rw [record_of_no_sink hslot, Counters.applyAll, List.foldl_append]
      exact congrArg (Counters.apply · e) ih

/-- A report on fewer events than a counter can hold, since the last reset: one summary for each type that
an event was counted for, in the strict order of a report, each with the exact numbers of the events for
its type. -/
theorem report_signalAll (signals : List Signal)
    (h : (Signal.sinceReset signals).length < 2 ^ 64) :
    let events := Signal.sinceReset signals
    let types := (start.signalAll signals).counters.report.types
    (types.map (·.name)).Nodup ∧
      (∀ name, name ∈ types.map (·.name) ↔ ∃ e ∈ events, e.type? = some name) ∧
      types.Pairwise TypeSummary.Precedes ∧
      ∀ t ∈ types, t.Describes events := by
  intro events types
  have hnames : (types.map (·.name)).Perm _ := (start.signalAll signals).counters.names_summaries_perm
  refine ⟨?distinct, ?complete, ?ordered, ?exact⟩
  case distinct => exact hnames.nodup_iff.2 (Keyed.keys_nodup _)
  case complete =>
    intro name
    rw [hnames.mem_iff, Keyed.mem_keys_iff, counters_eq_applyAll]
    exact Counters.get?_applyAll_isSome_iff events name
  case ordered => exact Counters.pairwise_precedes_summaries _
  case exact =>
    intro t ht
    rw [Counters.exists_of_mem_summaries ht]
    exact (holds_signalAll signals).2.describes h t.name

/-- What was counted before the reset is not reported, and what was counted after it is reported in full. -/
theorem report_after_reset :
    let signals : List Signal :=
      [.event (.planned "Profile" 2), .reset, .event (.conditionBuilt "Draft" true),
        .event (.conditionBuilt "Search" false), .event (.failed .input),
        .event (.assignmentsBuilt "Search" 3)]
    let types := (start.signalAll signals).counters.report.types
    (Signal.sinceReset signals).length < 2 ^ 64 ∧ "Profile" ∉ types.map (·.name) ∧
      types.Pairwise TypeSummary.Precedes ∧
      ∃ t ∈ types, t.name = "Search" ∧ t.conditionsBuilt = 1 ∧ t.conditionsEmpty = 0 ∧
        t.updatesBuilt = 1 := by
  intro signals types
  have hlength : (Signal.sinceReset signals).length < 2 ^ 64 := by decide
  obtain ⟨-, hcomplete, hordered, hexact⟩ := report_signalAll signals hlength
  refine ⟨hlength, fun hprofile => absurd ((hcomplete _).1 hprofile) (by decide), hordered, ?_⟩
  have hsearch : "Search" ∈ types.map (·.name) := (hcomplete _).2 (by decide)
  obtain ⟨t, ht, hname⟩ := List.mem_map.1 hsearch
  have hdescribes := hexact t ht
  refine ⟨t, ht, hname, ?_, ?_, ?_⟩
  · rw [hdescribes.conditionsBuilt, hname]
    decide
  · rw [hdescribes.conditionsEmpty, hname]
    decide
  · rw [hdescribes.updatesBuilt, hname]
    decide

end Observer

end Criteria
