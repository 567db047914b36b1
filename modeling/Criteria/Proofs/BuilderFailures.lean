import Mathlib
import Criteria.Proofs.CacheTransparency
import Criteria.Proofs.Conformance
import Criteria.Proofs.PlanFaults

set_option autoImplicit false

namespace Criteria

namespace Schema

/-- A condition builder asks for a type below the entries of a record. It asks for the type of a group
whose value is set, at the position of its entry, and then goes through the elements one after the
other, each with the entries of that type. -/
inductive Asks (s : Schema) : Record → List Plan.Entry → Address → TypeId → Prop where
  | here {r : Record} {entries : List Plan.Entry} {i : Nat} {e : Plan.Entry} {value : Value}
      {type : TypeId} (h : entries[i]? = some e) (htarget : e.target = .group type)
      (hset : r.given? e.path = some value) : Asks s r entries [i] type
  | inside {r inner : Record} {entries : List Plan.Entry} {i j : Nat} {e : Plan.Entry}
      {value item : Value} {type asked : TypeId} {plan : Plan} {address : Address}
      (h : entries[i]? = some e) (htarget : e.target = .group type)
      (hset : r.given? e.path = some value) (hplan : s.plan type = .ok plan)
      (hitem : value.alternatives[j]? = some item) (hinner : item.normalize = .ok inner)
      (hasks : Asks s inner plan.entries address asked) :
    Asks s r entries (i :: j :: address) asked

def ItemsAsk (s : Schema) (plan : Plan) (items : List Value) (address : Address) (asked : TypeId) :
    Prop :=
  ∃ j rest item inner, address = j :: rest ∧ items[j]? = some item ∧ item.normalize = .ok inner ∧
    s.Asks inner plan.entries rest asked

def AsksThen (s : Schema) (type : TypeId) (below : Plan → Address → TypeId → Prop)
    (address : Address) (asked : TypeId) : Prop :=
  (address = [] ∧ asked = type) ∨ ∃ plan, s.plan type = .ok plan ∧ below plan address asked

def Visits (s : Schema) (value : Value) (address : Address) (asked : TypeId) : Prop :=
  ∃ r, value.normalize = .ok r ∧
    s.AsksThen r.type (fun plan => s.Asks r plan.entries) address asked

/-- The errors of the types that are asked for. -/
def Refusals (s : Schema) (asks : Address → TypeId → Prop) (address : Address) (e : Error) : Prop :=
  ∃ asked, asks address asked ∧ s.plan asked = .error e

variable {s : Schema} {r : Record} {e : Plan.Entry} {rest : List Plan.Entry} {address : Address}
  {asked : TypeId}

theorem Asks.address_ne_nil {entries : List Plan.Entry} (h : s.Asks r entries address asked) :
    address ≠ [] := by
  cases h <;> simp

theorem not_asks_nil : ¬ s.Asks r [] address asked := by
  intro h
  cases h <;> simp_all

theorem asks_succ_iff {i : Nat} :
    s.Asks r (e :: rest) ((i + 1) :: address) asked ↔ s.Asks r rest (i :: address) asked := by
  constructor
  · intro h
    cases h with
    | here h htarget hset => exact .here (by simpa using h) htarget hset
    | inside h htarget hset hplan hitem hinner hasks =>
      exact .inside (by simpa using h) htarget hset hplan hitem hinner hasks
  · intro h
    cases h with
    | here h htarget hset => exact .here (by simpa using h) htarget hset
    | inside h htarget hset hplan hitem hinner hasks =>
      exact .inside (by simpa using h) htarget hset hplan hitem hinner hasks

theorem asks_group_iff {value : Value} {type : TypeId} (htarget : e.target = .group type)
    (hset : r.given? e.path = some value) :
    s.Asks r (e :: rest) (0 :: address) asked ↔
      s.AsksThen type (fun plan => s.ItemsAsk plan value.alternatives) address asked := by
  constructor
  · intro h
    cases h with
    | here h htarget' =>
      obtain rfl := Option.some.inj h
      obtain rfl := Target.group.inj (htarget'.symm.trans htarget)
      exact .inl ⟨rfl, rfl⟩
    | inside h htarget' hset' hplan hitem hinner hasks =>
      obtain rfl := Option.some.inj h
      obtain rfl := Target.group.inj (htarget'.symm.trans htarget)
      obtain rfl := Option.some.inj (hset'.symm.trans hset)
      exact .inr ⟨_, hplan, _, _, _, _, rfl, hitem, hinner, hasks⟩
  · rintro (⟨rfl, rfl⟩ | ⟨plan, hplan, j, below, item, inner, rfl, hitem, hinner, hasks⟩)
    · exact .here rfl htarget hset
    · exact .inside rfl htarget hset hplan hitem hinner hasks

/-- Only a group that is set asks for anything. -/
theorem not_asks_head (h : ∀ type, e.target = .group type → r.given? e.path = none)
    (rest : List Plan.Entry) (address : Address) (asked : TypeId) :
    ¬ s.Asks r (e :: rest) (0 :: address) asked := by
  intro hasks
  cases hasks with
  | here he htarget hset =>
    obtain rfl := Option.some.inj he
    simp [h _ htarget] at hset
  | inside he htarget hset =>
    obtain rfl := Option.some.inj he
    simp [h _ htarget] at hset

theorem itemsAsk_succ_iff {plan : Plan} {item : Value} {items : List Value} {j : Nat} :
    s.ItemsAsk plan (item :: items) ((j + 1) :: address) asked ↔
      s.ItemsAsk plan items (j :: address) asked := by
  simp [ItemsAsk]

theorem itemsAsk_zero_iff {plan : Plan} {item : Value} {items : List Value} {inner : Record}
    (h : item.normalize = .ok inner) :
    s.ItemsAsk plan (item :: items) (0 :: address) asked ↔ s.Asks inner plan.entries address asked := by
  simp [ItemsAsk, h]

theorem not_itemsAsk_root {plan : Plan} {items : List Value} : ¬ s.ItemsAsk plan items [] asked := by
  simp [ItemsAsk]

theorem not_itemsAsk_nil {plan : Plan} : ¬ s.ItemsAsk plan [] address asked := by
  simp [ItemsAsk]

theorem refusals_congr {asks other : Address → TypeId → Prop}
    (h : ∀ address asked, asks address asked ↔ other address asked) (address : Address) (e : Error) :
    s.Refusals asks address e ↔ s.Refusals other address e := by
  simp only [Refusals, h]

theorem not_refusals {asks : Address → TypeId → Prop} (h : ∀ asked, ¬ asks address asked)
    (e : Error) : ¬ s.Refusals asks address e := by
  rintro ⟨asked, hasks, -⟩
  exact h asked hasks

theorem splits_asks (r : Record) (e : Plan.Entry) (rest : List Plan.Entry) :
    Splits (s.Refusals (s.Asks r (e :: rest)))
      (s.Refusals fun address => s.Asks r (e :: rest) (0 :: address))
      (s.Refusals (s.Asks r rest)) where
  none := not_refusals fun _ h => h.address_ne_nil rfl
  zero := fun _ _ => Iff.rfl
  succ := by
    intro i address e
    simp only [Refusals, asks_succ_iff]
  tailNone := not_refusals fun _ h => h.address_ne_nil rfl

theorem splits_itemsAsk (plan : Plan) (item : Value) (items : List Value) :
    Splits (s.Refusals (s.ItemsAsk plan (item :: items)))
      (s.Refusals fun address => s.ItemsAsk plan (item :: items) (0 :: address))
      (s.Refusals (s.ItemsAsk plan items)) where
  none := not_refusals fun _ => not_itemsAsk_root
  zero := fun _ _ => Iff.rfl
  succ := by
    intro i address e
    simp only [Refusals, itemsAsk_succ_iff]
  tailNone := not_refusals fun _ => not_itemsAsk_root

/-- If a type has a plan, then what fails is what its plan leads to; if not, nothing is read of it. -/
theorem failsFirst_asksThen {β : Type} {type : TypeId} {below : Plan → Address → TypeId → Prop}
    {f : Plan → Except Error β}
    (h : ∀ plan, s.plan type = .ok plan → FailsFirst (s.Refusals (below plan)) (f plan)) :
    FailsFirst (s.Refusals (s.AsksThen type below)) ((s.plan type).bind f) := by
  cases hplan : s.plan type with
  | error e =>
    refine FailsFirst.of_root fun other => ?_
    simp [Refusals, AsksThen, hplan, eq_comm]
  | ok plan =>
    refine (h plan hplan).congr fun address e => ?_
    constructor
    · rintro ⟨asked, ⟨rfl, rfl⟩ | ⟨plan', hplan', hbelow⟩, herror⟩
      · rw [hplan] at herror
        cases herror
      · obtain rfl := Except.ok.inj (hplan.symm.trans hplan')
        exact ⟨asked, hbelow, herror⟩
    · rintro ⟨asked, hbelow, herror⟩
      exact ⟨asked, .inr ⟨plan, hplan, hbelow⟩, herror⟩

end Schema

namespace Condition

open Schema

variable {s : Schema}

/-- The walk over a conforming snapshot fails with the first type that it asks for in vain. -/
theorem failsFirst_parts_branches (hs : s.Plain) :
    (∀ (r : Record) (entries : List Plan.Entry),
      (∀ e ∈ entries, ∀ value, r.given? e.path = some value → s.Takes e value) →
      FailsFirst (s.Refusals (s.Asks r entries)) ((parts r entries).run s.plan)) ∧
    (∀ (plan : Plan) (items : List Value) (type : TypeId), s.plan type = .ok plan →
      (∀ item ∈ items, s.Conforms (.struct type) item) →
      FailsFirst (s.Refusals (s.ItemsAsk plan items)) ((branches plan items).run s.plan)) := by
  refine fields_items_induction ?done ?unset ?column ?group ?none ?noRecord ?record
  case done =>
    intro r _
    rw [parts_nil]
    exact FailsFirst.of_none (fun _ => not_refusals fun _ => not_asks_nil) _
  case unset =>
    intro r e rest hunset ih htakes
    rw [run_parts_unset _ rest hunset]
    have hnone := not_asks_head (s := s) (fun _ _ => hunset) rest
    refine FailsFirst.of_tail (splits_asks r e rest) (fun address => not_refusals (hnone address)) ?_
    exact ih (List.forall_mem_cons.1 htakes).2
  case column =>
    intro r e rest value column hset htarget ih htakes
    rw [run_parts_set _ rest hset, run_part_column _ value htarget]
    obtain ⟨hhead, hrest⟩ := List.forall_mem_cons.1 htakes
    obtain ⟨made, hmade⟩ := (hhead value hset).leaf column htarget
    rw [hmade]
    refine FailsFirst.bind (splits_asks r e rest) ?_ fun c _ => (ih hrest).map _
    have hnone := not_asks_head (s := s) (r := r) (e := e) (by simp [htarget]) rest
    exact FailsFirst.of_none (fun address => not_refusals (hnone address)) _
  case group =>
    intro r e rest value type hset htarget ihitems ih htakes
    rw [run_parts_set _ rest hset, run_part_group _ value htarget]
    obtain ⟨hhead, hrest⟩ := List.forall_mem_cons.1 htakes
    have hitems := (hhead value hset).alternatives type htarget
    -- The type is asked for even if the group has no elements.
    refine FailsFirst.bind (splits_asks r e rest) ?_ fun c _ => (ih hrest).map _
    refine FailsFirst.congr ?_ (refusals_congr fun _ _ => asks_group_iff htarget hset)
    exact failsFirst_asksThen fun plan hplan => (ihitems plan type hplan hitems).map _
  case none =>
    intro plan type _ _
    rw [branches_nil]
    exact FailsFirst.of_none (fun _ => not_refusals fun _ => not_itemsAsk_nil) _
  case noRecord =>
    intro plan item rest e hitem type _ hitems
    obtain ⟨fields, rfl⟩ := (hitems item List.mem_cons_self).eq_record
    cases hitem
  case record =>
    intro plan item rest r hitem ihfields ih type hplan hitems
    rw [run_branches_record _ rest hitem]
    obtain ⟨hhead, hrest⟩ := List.forall_mem_cons.1 hitems
    refine FailsFirst.bind (splits_itemsAsk plan item rest) ?_ fun cs _ => (ih type hplan hrest).map _
    refine FailsFirst.congr ?_ (refusals_congr fun _ _ => itemsAsk_zero_iff hitem)
    obtain ⟨fields, rfl⟩ := hhead.eq_record
    obtain rfl := Except.ok.inj hitem
    exact ihfields (hs.takes hplan hhead)

/-- A condition fails with the first type, of those that are asked for, that cannot be planned. -/
theorem failsFirst_ofValue (hs : s.Plain) {type : TypeId} {value : Value}
    (h : s.Conforms (.struct type) value.bare) :
    FailsFirst (s.Refusals (s.Visits value)) ((ofValue value).run s.plan) := by
  obtain ⟨fields, hbare⟩ := h.eq_record
  have hvalue := Value.normalize_of_bare hbare
  rw [hbare] at h
  rw [run_ofValue_record _ hvalue]
  have hasks : ∀ address asked, s.Visits value address asked ↔
      s.AsksThen type (fun plan => s.Asks ⟨type, fields⟩ plan.entries) address asked := by
    simp [Visits, hvalue]
  refine FailsFirst.congr ?_ (refusals_congr hasks)
  refine failsFirst_asksThen fun plan hplan => ?_
  exact ((failsFirst_parts_branches hs).1 _ plan.entries (hs.takes hplan h)).map _

end Condition

namespace Assignments

open Schema

variable {s : Schema} {r : Record}

theorem addEntry_ok (dialect : Dialect) (done : Assignments) {e : Plan.Entry}
    (h : ∀ value, r.given? e.path = some value → s.Takes e value) :
    ∃ next, addEntry dialect r done e = .ok next := by
  unfold addEntry
  split
  · rename_i column value _ hset
    obtain ⟨made, hmade⟩ := (h value hset).assignment dialect column
    rw [hmade]
    exact ⟨_, rfl⟩
  · exact ⟨done, rfl⟩

theorem foldlM_addEntry_ok (dialect : Dialect) (entries : List Plan.Entry) (done : Assignments)
    (h : ∀ e ∈ entries, ∀ value, r.given? e.path = some value → s.Takes e value) :
    ∃ last, entries.foldlM (addEntry dialect r) done = .ok last := by
  induction entries generalizing done with
  | nil => exact ⟨done, rfl⟩
  | cons e rest ih =>
    obtain ⟨hhead, hrest⟩ := List.forall_mem_cons.1 h
    obtain ⟨next, hnext⟩ := addEntry_ok dialect done hhead
    rw [List.foldlM_cons, hnext]
    exact ih next hrest

theorem run_ofValue_eq_error_iff (hs : s.Plain) {type : TypeId} {value : Value}
    (h : s.Conforms (.struct type) value.bare) (dialect : Dialect) (e : Error) :
    (ofValue dialect value).run s.plan = .error e ↔ s.plan type = .error e := by
  obtain ⟨fields, hbare⟩ := h.eq_record
  rw [hbare] at h
  rw [ofValue, Value.normalize_of_bare hbare]
  simp only [Lookup.run]
  cases hplan : s.plan type with
  | error other => simp
  | ok plan =>
    have htakes := hs.takes (r := ⟨type, fields⟩) hplan h
    obtain ⟨made, hmade⟩ := foldlM_addEntry_ok dialect plan.entries Keyed.empty htakes
    change (Lookup.ofExcept (plan.entries.foldlM _ _)).run s.plan = _ ↔ _
    rw [hmade]
    simp [Lookup.ofExcept, Lookup.run]

end Assignments

namespace Schema

variable {s : Schema}

theorem classOf_of_plan_eq_error {type : TypeId} {e : Error} (h : s.plan type = .error e) :
    e.classOf = .schema := by
  have hwalk := map_eq_error.1 h
  obtain ⟨address, ⟨site, fault, -, -, rfl⟩, -⟩ :=
    ((failsFirst_entriesOf s [type] [] (s.fieldsOf type) []).error_iff e).1 hwalk
  rfl

/-- On a conforming snapshot both builders fail only for types that cannot be planned: a condition
with the first one that it asks for, through groups at every depth, and an update with the type of
the record. -/
theorem Plain.builders_error_iff (hs : s.Plain) (actions : List Action) (id : CacheId)
    (dialect : Dialect) {type : TypeId} {value : Value} (h : s.Conforms (.struct type) value.bare) :
    let cache := (Host.after s actions).cache id
    let condition := ((Condition.ofValue value).runIn s cache).result
    let update := ((Assignments.ofValue dialect value).runIn s cache).result
    ((∃ e, condition = .error e) ↔
      ∃ address asked, s.Visits value address asked ∧ ∃ e, s.plan asked = .error e) ∧
    (∀ e, condition = .error e ↔ First (s.Refusals (s.Visits value)) e) ∧
    (∀ e, update = .error e ↔ s.plan type = .error e) ∧
    ∀ e, condition = .error e ∨ update = .error e → e.classOf = .schema := by
  intro cache condition update
  have hcache : cache.Sound s := Host.sound_cache_after s actions id
  have hcondition : condition = (Condition.ofValue value).run s.plan :=
    (CacheStep.transparent_runIn _).result _ hcache
  have hupdate : update = (Assignments.ofValue dialect value).run s.plan :=
    (CacheStep.transparent_runIn _).result _ hcache
  have hfirst := Condition.failsFirst_ofValue hs h
  rw [← hcondition] at hfirst
  have hassign := Assignments.run_ofValue_eq_error_iff hs h dialect
  rw [← hupdate] at hassign
  refine ⟨?_, hfirst.error_iff, hassign, ?_⟩
  · refine hfirst.exists_error_iff.trans ?_
    constructor
    · rintro ⟨address, e, asked, hvisits, hplan⟩
      exact ⟨address, asked, hvisits, e, hplan⟩
    · rintro ⟨address, asked, hvisits, e, hplan⟩
      exact ⟨address, e, asked, hvisits, hplan⟩
  · intro e he
    rcases he with he | he
    · obtain ⟨address, ⟨asked, -, hplan⟩, -⟩ := (hfirst.error_iff e).1 he
      exact classOf_of_plan_eq_error hplan
    · exact classOf_of_plan_eq_error ((hassign e).1 he)

def searches : Schema :=
  ⟨[⟨"Search",
      [⟨"kinds", .optional (.list .text), false, ⟨some "kind", some "in", none⟩⟩,
        ⟨"any", .list (.struct 0), false, ⟨none, some "or", none⟩⟩,
        ⟨"draft", .optional (.struct 1), false, ⟨none, some "or", none⟩⟩]⟩,
    ⟨"Draft", [⟨"tag", .text, false, ⟨some "tag", some "in", none⟩⟩]⟩]⟩

def nestedSearch : Value :=
  .record 0 [("kinds", .present (.list [.text "a"])),
    ("any", .list [.record 0 [("kinds", .null), ("any", .list []),
      ("draft", .present (.record 1 [("tag", .text "b")]))]]),
    ("draft", .null)]

theorem searches_plain : searches.Plain := by
  constructor
  · rintro (_ | _ | type) <;> simp [searches, fieldsOf, struct?]
  · rintro (_ | _ | type) <;> simp [searches, fieldsOf, struct?, Declaration.updateToken]
  · rintro (_ | _ | type) <;> simp [searches, fieldsOf, struct?, Declaration.queryToken]

theorem nestedSearch_conforms : searches.Conforms (.struct 0) nestedSearch := by
  have hdraft : searches.Conforms (.struct 1) (.record 1 [("tag", .text "b")]) := by
    refine .struct rfl fun pair hpair => ?_
    obtain rfl := List.mem_singleton.1 hpair
    exact .text "b"
  have hinner : searches.Conforms (.struct 0) (.record 0 [("kinds", .null), ("any", .list []),
      ("draft", .present (.record 1 [("tag", .text "b")]))]) := by
    refine .struct rfl fun pair hpair => ?_
    simp [searches, fieldsOf, struct?] at hpair
    rcases hpair with rfl | rfl | rfl
    · exact .absent _
    · exact .list (by simp)
    · exact .present hdraft
  refine .struct rfl fun pair hpair => ?_
  simp [searches, fieldsOf, struct?] at hpair
  rcases hpair with rfl | rfl | rfl
  · exact .present (.list (by simp [Conforms.text]))
  · exact .list (by simpa using hinner)
  · exact .absent _

theorem searches_error : First (searches.Refusals (searches.Visits nestedSearch))
    (.declaration "tag" (.membershipNotList "in" .text)) :=
  ((searches_plain.builders_error_iff [] 0 .mysql nestedSearch_conforms).2.1 _).1 (by cbv)

end Schema

end Criteria
