import Criteria.Condition.OfRecord
import Criteria.Proofs.Address

set_option autoImplicit false

namespace Criteria

def Value.alternatives : Value → List Value
  | .list items => items
  | other => [other]

theorem Value.alternatives_eq_singleton {value : Value} (h : ∀ items, value ≠ .list items) :
    value.alternatives = [value] := by
  cases value with
  | list items => exact absurd rfl (h items)
  | _ => rfl

theorem Value.sizeOf_alternative_le {value item : Value} (h : item ∈ value.alternatives) :
    sizeOf item ≤ sizeOf value := by
  by_cases hlist : ∃ items, value = .list items
  · obtain ⟨items, rfl⟩ := hlist
    have hlt : sizeOf item < sizeOf items := List.sizeOf_lt_of_mem h
    simp only [Value.list.sizeOf_spec]
    omega
  · have hsingle : ∀ items, value ≠ .list items := fun items hvalue => hlist ⟨items, hvalue⟩
    rw [Value.alternatives_eq_singleton hsingle] at h
    exact Nat.le_of_eq (congrArg sizeOf (List.mem_singleton.1 h))

theorem Lookup.run_ofExcept {α : Type} (answer : TypeId → Except Error Plan) (x : Except Error α) :
    (Lookup.ofExcept x).run answer = x := by
  cases x <;> rfl

namespace Condition

variable (answer : TypeId → Except Error Plan)

theorem join_join (conjunctive : Bool) (cs : List Condition) :
    join conjunctive (join conjunctive cs).toList = join conjunctive cs := by
  match cs with
  | [] => rfl
  | [only] => rfl
  | first :: second :: rest => cases conjunctive <;> rfl

theorem branches_nil (plan : Plan) : branches plan [] = .done [] := by
  rw [branches]
  rfl

theorem branches_cons_of_error {plan : Plan} {item : Value} {e : Error} (items : List Value)
    (h : item.normalize = .error e) : branches plan (item :: items) = .fail e := by
  rw [branches]
  split <;> simp_all

theorem group_of_error {plan : Plan} {value : Value} {e : Error}
    (h : ∀ items, value ≠ .list items) (hr : value.normalize = .error e) :
    group plan value = .fail e := by
  cases value with
  | list items => exact absurd rfl (h items)
  | _ =>
    rw [group]
    · split <;> simp_all
    · simp

theorem group_eq (plan : Plan) (value : Value) :
    group plan value = (branches plan value.alternatives).bind fun cs => .done (join false cs) := by
  by_cases hlist : ∃ items, value = .list items
  · obtain ⟨items, rfl⟩ := hlist
    exact group_list plan items
  · have hsingle : ∀ items, value ≠ .list items := fun items h => hlist ⟨items, h⟩
    rw [Value.alternatives_eq_singleton hsingle]
    cases hr : value.normalize with
    | ok r =>
      rw [group_of_normalize hr, branches_cons_of_normalize [] hr, branches_nil]
      change (parts r plan.entries).bind _ = ((parts r plan.entries).bind fun cs =>
        .done ((join false cs).toList ++ [])).bind _
      rw [Lookup.bind_assoc]
      simp only [List.append_nil, Lookup.bind, join_join]
      rfl
    | error e =>
      rw [branches_cons_of_error [] hr, group_of_error hsingle hr]
      rfl

theorem run_parts_unset {r : Record} {e : Plan.Entry} (rest : List Plan.Entry)
    (h : r.given? e.path = none) :
    (parts r (e :: rest)).run answer = (parts r rest).run answer := by
  rw [parts_cons_of_unset rest h]

theorem run_parts_set {r : Record} {e : Plan.Entry} {value : Value} (rest : List Plan.Entry)
    (h : r.given? e.path = some value) :
    (parts r (e :: rest)).run answer = ((part e value).run answer).bind fun c =>
      ((parts r rest).run answer).map (c.toList ++ ·) := by
  rw [parts_cons_of_set rest h]
  change ((part e value).bind fun c => (parts r rest).bind fun cs => .done (c.toList ++ cs)).run
    answer = _
  simp only [Lookup.run_bind, Lookup.run]
  rfl

theorem run_part_column {e : Plan.Entry} {column : String} (value : Value)
    (h : e.target = .column column) : (part e value).run answer = leaf e column value := by
  rw [part, h]
  exact Lookup.run_ofExcept answer _

theorem run_part_group {e : Plan.Entry} {type : TypeId} (value : Value)
    (h : e.target = .group type) :
    (part e value).run answer = (answer type).bind fun plan =>
      ((branches plan value.alternatives).run answer).map (join false) := by
  rw [part, h]
  simp only [Lookup.run]
  cases answer type with
  | ok plan =>
    simp only [group_eq, Lookup.run_bind, Lookup.run]
    rfl
  | error e => rfl

theorem run_branches_error {plan : Plan} {item : Value} {e : Error} (items : List Value)
    (h : item.normalize = .error e) : (branches plan (item :: items)).run answer = .error e := by
  rw [branches_cons_of_error items h]
  rfl

theorem run_branches_record {plan : Plan} {item : Value} {r : Record} (items : List Value)
    (h : item.normalize = .ok r) :
    (branches plan (item :: items)).run answer =
      ((parts r plan.entries).run answer).bind fun cs =>
        ((branches plan items).run answer).map ((join false cs).toList ++ ·) := by
  rw [branches_cons_of_normalize items h]
  change ((parts r plan.entries).bind fun cs => (branches plan items).bind fun rest =>
    .done ((join false cs).toList ++ rest)).run answer = _
  simp only [Lookup.run_bind, Lookup.run]
  rfl

theorem run_ofValue_record {value : Value} {r : Record} (h : value.normalize = .ok r) :
    (ofValue value).run answer = (answer r.type).bind fun plan =>
      ((parts r plan.entries).run answer).map (join true) := by
  rw [ofValue, h]
  change (Lookup.ask r.type fun plan =>
    (parts r plan.entries).bind fun cs => .done (join true cs)).run answer = _
  rw [Lookup.run]
  cases answer r.type with
  | ok plan =>
    simp only [Lookup.run_bind, Lookup.run]
    rfl
  | error e => rfl

theorem run_ofValue_error {value : Value} {e : Error} (h : value.normalize = .error e) :
    (ofValue value).run answer = .error e := by
  rw [ofValue, h]
  rfl

/-- Induction over a snapshot: over the entries of a record, and below a group over its elements,
for whatever plan the group has. -/
theorem fields_items_induction {fields : Record → List Plan.Entry → Prop}
    {items : Plan → List Value → Prop}
    (done : ∀ r, fields r [])
    (unset : ∀ r e rest, r.given? e.path = none → fields r rest → fields r (e :: rest))
    (column : ∀ r e rest value column, r.given? e.path = some value →
      e.target = .column column → fields r rest → fields r (e :: rest))
    (group : ∀ r e rest value type, r.given? e.path = some value → e.target = .group type →
      (∀ plan, items plan value.alternatives) → fields r rest → fields r (e :: rest))
    (none : ∀ plan, items plan [])
    (noRecord : ∀ plan item rest e, item.normalize = .error e → items plan (item :: rest))
    (record : ∀ plan item rest r, item.normalize = .ok r → fields r plan.entries →
      items plan rest → items plan (item :: rest)) :
    (∀ r entries, fields r entries) ∧ ∀ plan values, items plan values := by
  have hsize : ∀ n, (∀ r entries, sizeOf r.fields ≤ n → fields r entries) ∧
      ∀ plan values, (∀ item ∈ values, sizeOf item ≤ n) → items plan values := by
    intro n
    induction n using Nat.strongRecOn with
    | ind n ih =>
      constructor
      · intro r entries hr
        induction entries with
        | nil => exact done r
        | cons e rest ihrest =>
          cases hset : r.given? e.path with
          | none => exact unset r e rest hset ihrest
          | some value =>
            cases htarget : e.target with
            | column name => exact column r e rest value name hset htarget ihrest
            | group type =>
              have hlt : sizeOf value < n := Nat.lt_of_lt_of_le (Record.sizeOf_given?_lt hset) hr
              refine group r e rest value type hset htarget (fun plan => ?_) ihrest
              exact (ih _ hlt).2 plan _ fun item hitem => Value.sizeOf_alternative_le hitem
      · intro plan values hvalues
        induction values with
        | nil => exact none plan
        | cons item rest ihrest =>
          obtain ⟨hitem, hrest⟩ := List.forall_mem_cons.1 hvalues
          cases hr : item.normalize with
          | error e => exact noRecord plan item rest e hr
          | ok r =>
            have hlt : sizeOf r.fields < n := Nat.lt_of_lt_of_le (Value.sizeOf_normalize_lt hr) hitem
            exact record plan item rest r hr ((ih _ hlt).1 r plan.entries (Nat.le_refl _))
              (ihrest hrest)
  refine ⟨fun r entries => (hsize _).1 r entries (Nat.le_refl _), fun plan values => ?_⟩
  refine (hsize (sizeOf values)).2 plan values fun item hitem => ?_
  exact Nat.le_of_lt (List.sizeOf_lt_of_mem hitem)

/-- Induction over what is built: over the runs of both walks that succeed, with their conditions. -/
theorem built_induction {fields : Record → List Plan.Entry → List Condition → Prop}
    {items : Plan → List Value → List Condition → Prop}
    (done : ∀ r, fields r [] [])
    (unset : ∀ r e rest cs, r.given? e.path = none → fields r rest cs → fields r (e :: rest) cs)
    (column : ∀ r e rest value column made cs, r.given? e.path = some value →
      e.target = .column column → leaf e column value = .ok made → fields r rest cs →
      fields r (e :: rest) (made.toList ++ cs))
    (group : ∀ r e rest value type plan ds cs, r.given? e.path = some value →
      e.target = .group type → answer type = .ok plan → items plan value.alternatives ds →
      fields r rest cs → fields r (e :: rest) ((join false ds).toList ++ cs))
    (none : ∀ plan, items plan [] [])
    (record : ∀ plan item rest r ds cs, item.normalize = .ok r → fields r plan.entries ds →
      items plan rest cs → items plan (item :: rest) ((join false ds).toList ++ cs)) :
    (∀ r entries cs, (parts r entries).run answer = .ok cs → fields r entries cs) ∧
      ∀ plan values cs, (branches plan values).run answer = .ok cs → items plan values cs := by
  refine fields_items_induction ?done ?unset ?column ?group ?none ?noRecord ?record
  case done =>
    intro r cs h
    rw [parts_nil] at h
    obtain rfl := Except.ok.inj h
    exact done r
  case unset =>
    intro r e rest hunset ih cs h
    rw [run_parts_unset answer rest hunset] at h
    exact unset r e rest cs hunset (ih cs h)
  case column =>
    intro r e rest value name hset htarget ih cs h
    rw [run_parts_set answer rest hset, run_part_column answer value htarget] at h
    obtain ⟨made, hleaf, h⟩ := bind_eq_ok.1 h
    obtain ⟨cs, hrest, rfl⟩ := map_eq_ok.1 h
    exact column r e rest value name made cs hset htarget hleaf (ih cs hrest)
  case group =>
    intro r e rest value type hset htarget ihitems ih cs h
    rw [run_parts_set answer rest hset, run_part_group answer value htarget] at h
    obtain ⟨made, hpart, h⟩ := bind_eq_ok.1 h
    obtain ⟨cs, hrest, rfl⟩ := map_eq_ok.1 h
    obtain ⟨plan, hplan, hpart⟩ := bind_eq_ok.1 hpart
    obtain ⟨ds, hbranches, rfl⟩ := map_eq_ok.1 hpart
    exact group r e rest value type plan ds cs hset htarget hplan (ihitems plan ds hbranches)
      (ih cs hrest)
  case none =>
    intro plan cs h
    rw [branches_nil] at h
    obtain rfl := Except.ok.inj h
    exact none plan
  case noRecord =>
    intro plan item rest e hitem cs h
    rw [run_branches_error answer rest hitem] at h
    cases h
  case record =>
    intro plan item rest r hitem ihfields ih cs h
    rw [run_branches_record answer rest hitem] at h
    obtain ⟨ds, hparts, h⟩ := bind_eq_ok.1 h
    obtain ⟨cs, hrest, rfl⟩ := map_eq_ok.1 h
    exact record plan item rest r ds cs hitem (ihfields ds hparts) (ih cs hrest)

end Condition

end Criteria
