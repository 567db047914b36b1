import Criteria.Metrics.Observer
import Criteria.Metrics.Report
import Criteria.Proofs.KeyedListings

set_option autoImplicit false

namespace Criteria

/-- Where a count stops does not depend on which of two numbers is added first. -/
theorem Count.add_right_comm (count m n : Nat) : add (add count m) n = add (add count n) m := by
  change min (min (count + m) max + n) max = min (min (count + n) max + m) max
  omega

namespace Keyed

variable {α : Type} {key other : String}

theorem alter_alter (m : Keyed α) (key : String) (f g : Option α → α) :
    (m.alter key f).alter key g = m.alter key fun old => g (some (f old)) := by
  refine ext_get? fun asked => ?_
  simp only [get?_alter, if_pos]
  split <;> rfl

theorem alter_alter_of_ne (m : Keyed α) (h : key ≠ other) (f g : Option α → α) :
    (m.alter key f).alter other g = (m.alter other g).alter key f := by
  refine ext_get? fun asked => ?_
  simp only [get?_alter, if_neg h, if_neg h.symm]
  by_cases hkey : key = asked
  · rw [if_pos hkey, if_pos hkey, if_neg fun hother => h (hkey.trans hother.symm)]
  · rw [if_neg hkey, if_neg hkey]

end Keyed

namespace Counters

variable {e f : Event} {events others : List Event}

/-- Events of different kinds change different totals, and events of one kind add to the same ones. -/
theorem addTotals_right_comm (t : Totals) (e f : Event) :
    addTotals (addTotals t e) f = addTotals (addTotals t f) e := by
  cases e with
  | failed side =>
    cases f with
    | failed other => cases side <;> cases other <;> rfl
    | _ => cases side <;> rfl
  | planned type fields =>
    cases f with
    | planned => simp only [addTotals, Count.add_right_comm]
    | failed other => cases other <;> rfl
    | _ => rfl
  | cacheHit type =>
    cases f with
    | failed other => cases other <;> rfl
    | _ => rfl
  | conditionBuilt type empty =>
    cases f with
    | conditionBuilt => simp only [addTotals, Count.add_right_comm]
    | failed other => cases other <;> rfl
    | _ => rfl
  | assignmentsBuilt type columns =>
    cases f with
    | assignmentsBuilt => simp only [addTotals, Count.add_right_comm]
    | failed other => cases other <;> rfl
    | _ => rfl
  | panicRecovered =>
    cases f with
    | failed other => cases other <;> rfl
    | _ => rfl

theorem typeChange_right_comm {name other : String} {change adds : TypeCounts → TypeCounts}
    (he : typeChange e = some (name, change)) (hf : typeChange f = some (other, adds))
    (t : TypeCounts) : adds (change t) = change (adds t) := by
  cases e <;> cases he <;> cases f <;> cases hf <;> simp only [Count.add_right_comm]

theorem apply_right_comm (c : Counters) (e f : Event) :
    (c.apply e).apply f = (c.apply f).apply e := by
  have htypes : ((c.apply e).apply f).types = ((c.apply f).apply e).types := by
    cases he : typeChange e with
    | none => simp only [apply, he]
    | some change =>
      cases hf : typeChange f with
      | none => simp only [apply, he, hf]
      | some adds =>
        simp only [apply, he, hf]
        by_cases hname : change.1 = adds.1
        · rw [hname, Keyed.alter_alter, Keyed.alter_alter]
          refine congrArg (Keyed.alter _ _) (funext fun old => ?_)
          exact typeChange_right_comm he hf (old.getD {})
        · exact Keyed.alter_alter_of_ne _ hname _ _
  exact congrArg₂ mk (addTotals_right_comm c.totals e f) htypes

/-- Whatever was counted before, counting some events in two orders ends with the same counters, and so
with the same report. -/
theorem applyAll_perm (c : Counters) (h : events.Perm others) :
    c.applyAll events = c.applyAll others ∧
      (c.applyAll events).report = (c.applyAll others).report := by
  have hcounters : c.applyAll events = c.applyAll others :=
    h.foldl_eq' (fun e _ f _ counters => apply_right_comm counters e f) c
  exact ⟨hcounters, congrArg report hcounters⟩

/-- The count of fields stops at the maximum after the first event in one order, after the last in the
other. -/
theorem applyAll_swapped :
    let c : Counters := ⟨{ planFields := Count.max - 3 }, Keyed.empty⟩
    let events : List Event := [.planned "Search" 5, .cacheHit "Draft", .planned "Search" 2]
    events.Perm events.reverse ∧ c.applyAll events = c.applyAll events.reverse ∧
      (c.applyAll events).report = (c.applyAll events.reverse).report ∧
      (c.applyAll events).totals.planFields = Count.max := by
  intro c events
  have hperm : events.Perm events.reverse := events.reverse_perm.symm
  obtain ⟨hcounters, hreport⟩ := applyAll_perm c hperm
  exact ⟨hperm, hcounters, hreport, rfl⟩

end Counters

end Criteria
