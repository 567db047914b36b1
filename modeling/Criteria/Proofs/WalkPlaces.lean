import Criteria.Plan.OfSchema
import Criteria.Proofs.ConditionRun
import Criteria.Proofs.Listing

/-!
Where a condition builder comes by. Its places are the set fields of a record and, below a group, the
elements of the group and the set fields of their records. What is found at its places, be it leaves,
questions or failures, is found in the parts of a snapshot as in the whole.
-/

set_option autoImplicit false

namespace Criteria

/-- A set field with its value, or an element of a group with the plan of its type. -/
inductive WalkPlace where
  | field (e : Plan.Entry) (value : Value)
  | element (plan : Plan) (item : Value)

namespace WalkPlace

inductive Makes : WalkPlace → Condition → Prop where
  | leaf {e : Plan.Entry} {value : Value} {column : String} {c : Condition}
      (htarget : e.target = .column column) (hleaf : Condition.leaf e column value = .ok (some c)) :
    Makes (.field e value) c

inductive Asks : WalkPlace → TypeId → Prop where
  | group {e : Plan.Entry} {value : Value} {type : TypeId} (htarget : e.target = .group type) :
    Asks (.field e value) type

inductive Fails (s : Schema) : WalkPlace → Error → Prop where
  | leaf {e : Plan.Entry} {value : Value} {column : String} {error : Error}
      (htarget : e.target = .column column) (hleaf : Condition.leaf e column value = .error error) :
    Fails s (.field e value) error
  | plan {e : Plan.Entry} {value : Value} {type : TypeId} {error : Error}
      (htarget : e.target = .group type) (hplan : s.plan type = .error error) :
    Fails s (.field e value) error
  | record {plan : Plan} {item : Value} {error : Error} (hitem : item.normalize = .error error) :
    Fails s (.element plan item) error

end WalkPlace

namespace Schema

/-- A condition builder comes by a place below the entries of a record. -/
inductive Meets (s : Schema) : Record → List Plan.Entry → Address → WalkPlace → Prop where
  | field {r : Record} {entries : List Plan.Entry} {i : Nat} {e : Plan.Entry} {value : Value}
      (h : entries[i]? = some e) (hset : r.given? e.path = some value) :
    Meets s r entries [i] (.field e value)
  | element {r : Record} {entries : List Plan.Entry} {i j : Nat} {e : Plan.Entry}
      {value item : Value} {type : TypeId} {plan : Plan} (h : entries[i]? = some e)
      (hset : r.given? e.path = some value) (htarget : e.target = .group type)
      (hplan : s.plan type = .ok plan) (hitem : value.alternatives[j]? = some item) :
    Meets s r entries [i, j] (.element plan item)
  | inside {r inner : Record} {entries : List Plan.Entry} {i j : Nat} {e : Plan.Entry}
      {value item : Value} {type : TypeId} {plan : Plan} {address : Address} {place : WalkPlace}
      (h : entries[i]? = some e) (hset : r.given? e.path = some value)
      (htarget : e.target = .group type) (hplan : s.plan type = .ok plan)
      (hitem : value.alternatives[j]? = some item) (hinner : item.normalize = .ok inner)
      (hbelow : Meets s inner plan.entries address place) :
    Meets s r entries (i :: j :: address) place

def ItemsMeet (s : Schema) (plan : Plan) (items : List Value) (address : Address) (place : WalkPlace) :
    Prop :=
  ∃ j rest item, address = j :: rest ∧ items[j]? = some item ∧
    ((rest = [] ∧ place = .element plan item) ∨
      ∃ inner, item.normalize = .ok inner ∧ s.Meets inner plan.entries rest place)

variable {s : Schema} {r : Record} {e : Plan.Entry} {rest entries : List Plan.Entry}
  {address : Address} {place : WalkPlace} {plan : Plan} {item value : Value} {items : List Value}

theorem Meets.address_ne_nil (h : s.Meets r entries address place) : address ≠ [] := by
  cases h <;> simp

theorem not_meets_nil : ¬ s.Meets r [] address place := by
  intro h
  cases h <;> simp_all

theorem meets_succ_iff {i : Nat} :
    s.Meets r (e :: rest) ((i + 1) :: address) place ↔ s.Meets r rest (i :: address) place := by
  constructor
  · intro h
    cases h with
    | field h hset => exact .field (by simpa using h) hset
    | element h hset htarget hplan hitem => exact .element (by simpa using h) hset htarget hplan hitem
    | inside h hset htarget hplan hitem hinner hbelow =>
      exact .inside (by simpa using h) hset htarget hplan hitem hinner hbelow
  · intro h
    cases h with
    | field h hset => exact .field (by simpa using h) hset
    | element h hset htarget hplan hitem => exact .element (by simpa using h) hset htarget hplan hitem
    | inside h hset htarget hplan hitem hinner hbelow =>
      exact .inside (by simpa using h) hset htarget hplan hitem hinner hbelow

theorem meets_zero_iff :
    s.Meets r (e :: rest) (0 :: address) place ↔
      ∃ value, r.given? e.path = some value ∧
        ((address = [] ∧ place = .field e value) ∨
          ∃ type plan, e.target = .group type ∧ s.plan type = .ok plan ∧
            s.ItemsMeet plan value.alternatives address place) := by
  constructor
  · intro h
    cases h with
    | field h hset =>
      obtain rfl := Option.some.inj h
      exact ⟨_, hset, .inl ⟨rfl, rfl⟩⟩
    | element h hset htarget hplan hitem =>
      obtain rfl := Option.some.inj h
      exact ⟨_, hset, .inr ⟨_, _, htarget, hplan, _, _, _, rfl, hitem, .inl ⟨rfl, rfl⟩⟩⟩
    | inside h hset htarget hplan hitem hinner hbelow =>
      obtain rfl := Option.some.inj h
      exact ⟨_, hset, .inr ⟨_, _, htarget, hplan, _, _, _, rfl, hitem, .inr ⟨_, hinner, hbelow⟩⟩⟩
  · rintro ⟨value, hset, ⟨rfl, rfl⟩ | ⟨type, plan, htarget, hplan, j, below, item, rfl, hitem, hmeets⟩⟩
    · exact .field rfl hset
    · rcases hmeets with ⟨rfl, rfl⟩ | ⟨inner, hinner, hbelow⟩
      · exact .element rfl hset htarget hplan hitem
      · exact .inside rfl hset htarget hplan hitem hinner hbelow

theorem itemsMeet_zero_iff :
    s.ItemsMeet plan (item :: items) (0 :: address) place ↔
      (address = [] ∧ place = .element plan item) ∨
        ∃ inner, item.normalize = .ok inner ∧ s.Meets inner plan.entries address place := by
  simp [ItemsMeet, and_assoc]

theorem splits_meets (s : Schema) (r : Record) (e : Plan.Entry) (rest : List Plan.Entry) :
    Splits (s.Meets r (e :: rest)) (fun address => s.Meets r (e :: rest) (0 :: address))
      (s.Meets r rest) where
  none := fun _ h => h.address_ne_nil rfl
  zero := fun _ _ => Iff.rfl
  succ := fun _ _ _ => meets_succ_iff
  tailNone := fun _ h => h.address_ne_nil rfl

theorem splits_itemsMeet (s : Schema) (plan : Plan) (item : Value) (items : List Value) :
    Splits (s.ItemsMeet plan (item :: items))
      (fun address => s.ItemsMeet plan (item :: items) (0 :: address)) (s.ItemsMeet plan items) where
  none := by simp [ItemsMeet]
  zero := fun _ _ => Iff.rfl
  succ := by simp [ItemsMeet, and_assoc]
  tailNone := by simp [ItemsMeet]

/-! What is read off the places. -/

section Readings

variable {α : Type} (s) (reads : WalkPlace → α → Prop)

def Finds (r : Record) (entries : List Plan.Entry) (address : Address) (a : α) : Prop :=
  ∃ place, s.Meets r entries address place ∧ reads place a

def ItemsFind (plan : Plan) (items : List Value) (address : Address) (a : α) : Prop :=
  ∃ place, s.ItemsMeet plan items address place ∧ reads place a

theorem splits_finds (r : Record) (e : Plan.Entry) (rest : List Plan.Entry) :
    Splits (s.Finds reads r (e :: rest)) (fun address => s.Finds reads r (e :: rest) (0 :: address))
      (s.Finds reads r rest) :=
  (s.splits_meets r e rest).through reads

theorem splits_itemsFind (plan : Plan) (item : Value) (items : List Value) :
    Splits (s.ItemsFind reads plan (item :: items))
      (fun address => s.ItemsFind reads plan (item :: items) (0 :: address))
      (s.ItemsFind reads plan items) :=
  (s.splits_itemsMeet plan item items).through reads

variable {s reads} {a : α}

theorem not_finds_nil : ¬ s.Finds reads r [] address a := by
  rintro ⟨place, hmeets, -⟩
  exact not_meets_nil hmeets

theorem not_itemsFind_nil : ¬ s.ItemsFind reads plan [] address a := by
  simp [ItemsFind, ItemsMeet]

theorem not_finds_root (a : α) : ¬ s.Finds reads r entries [] a := by
  rintro ⟨place, hmeets, -⟩
  exact hmeets.address_ne_nil rfl

theorem not_itemsFind_root (a : α) : ¬ s.ItemsFind reads plan items [] a := by
  simp [ItemsFind, ItemsMeet]

theorem not_finds_unset (h : r.given? e.path = none) (rest : List Plan.Entry) (address : Address)
    (a : α) : ¬ s.Finds reads r (e :: rest) (0 :: address) a := by
  rintro ⟨place, hmeets, -⟩
  obtain ⟨value, hset, -⟩ := meets_zero_iff.1 hmeets
  rw [h] at hset
  cases hset

theorem finds_column_iff {column : String} (hset : r.given? e.path = some value)
    (htarget : e.target = .column column) :
    s.Finds reads r (e :: rest) (0 :: address) a ↔ address = [] ∧ reads (.field e value) a := by
  simp [Finds, meets_zero_iff, hset, htarget, and_assoc]

theorem finds_group_iff {type : TypeId} (hset : r.given? e.path = some value)
    (htarget : e.target = .group type) :
    s.Finds reads r (e :: rest) (0 :: address) a ↔
      (address = [] ∧ reads (.field e value) a) ∨
        ∃ plan, s.plan type = .ok plan ∧ s.ItemsFind reads plan value.alternatives address a := by
  simp only [Finds, ItemsFind, meets_zero_iff, hset, htarget, Option.some.injEq, exists_eq_left',
    Target.group.injEq, exists_and_left]
  constructor
  · rintro ⟨place, ⟨rfl, rfl⟩ | ⟨plan, hplan, hmeets⟩, hreads⟩
    · exact .inl ⟨rfl, hreads⟩
    · exact .inr ⟨plan, hplan, place, hmeets, hreads⟩
  · rintro (⟨rfl, hreads⟩ | ⟨plan, hplan, place, hmeets, hreads⟩)
    · exact ⟨_, .inl ⟨rfl, rfl⟩, hreads⟩
    · exact ⟨place, .inr ⟨plan, hplan, hmeets⟩, hreads⟩

theorem itemsFind_zero_iff :
    s.ItemsFind reads plan (item :: items) (0 :: address) a ↔
      (address = [] ∧ reads (.element plan item) a) ∨
        ∃ inner, item.normalize = .ok inner ∧ s.Finds reads inner plan.entries address a := by
  simp only [Finds, ItemsFind, itemsMeet_zero_iff]
  constructor
  · rintro ⟨place, ⟨rfl, rfl⟩ | ⟨inner, hinner, hmeets⟩, hreads⟩
    · exact .inl ⟨rfl, hreads⟩
    · exact .inr ⟨inner, hinner, place, hmeets, hreads⟩
  · rintro (⟨rfl, hreads⟩ | ⟨inner, hinner, place, hmeets, hreads⟩)
    · exact ⟨_, .inl ⟨rfl, rfl⟩, hreads⟩
    · exact ⟨place, .inr ⟨inner, hinner, hmeets⟩, hreads⟩

end Readings

end Schema

end Criteria
