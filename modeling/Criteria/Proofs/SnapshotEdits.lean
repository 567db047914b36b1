import Mathlib
import Criteria.Proofs.FieldPlaces
import Criteria.Proofs.Readings

/-!
Edits that builders cannot see. Values that count as unset may come and go, one level of presence may be
put around a set value, alternatives that ask for nothing may be inserted, and fields may change their
order. Edits reach into embedded records and into the alternatives of groups, at every depth.
-/

set_option autoImplicit false

namespace Criteria

/-- Where in a snapshot an edit takes place: the snapshot itself, a record with the entries that are read
from it, one field of such a record, the value of a group, or one of its alternatives. -/
inductive Place where
  | snapshot
  | record (type : TypeId) (entries : List Plan.Entry)
  | field (type : TypeId) (entries : List Plan.Entry) (name : String)
  | group (plan : Plan)
  | alternative (plan : Plan)

inductive Value.HoldsAlternatives : Value → Prop where
  | list (items : List Value) : HoldsAlternatives (.list items)
  | record (type : TypeId) (fields : List (String × Value)) : HoldsAlternatives (.record type fields)

theorem Value.HoldsAlternatives.bare_eq {value : Value} (h : value.HoldsAlternatives) :
    value.bare = value := by
  cases h <;> rfl

theorem Value.HoldsAlternatives.alternatives_eq_nil {value : Value} (h : value.HoldsAlternatives)
    (hempty : value.isEmpty = true) : value.alternatives = [] := by
  cases h with
  | list items => exact List.isEmpty_iff.1 hempty
  | record => cases hempty

namespace Schema

/-- The value of a field counts as unset for all entries that are read from it. -/
inductive Vacant (s : Schema) (type : TypeId) (entries : List Plan.Entry) : String → Value → Prop where
  | empty {e : Plan.Entry} {name : String} {value : Value} (he : e ∈ entries) (hpath : e.path = [name])
      (hempty : value.isEmpty = true) : Vacant s type entries name value
  | absent {d : Declaration} {inner : TypeId} (hd : d ∈ s.fieldsOf type) (hembeds : d.Embeds inner) :
    Vacant s type entries d.name .null
  | hollow {d : Declaration} {inner : TypeId} {value : Value} {r : Record} (hd : d ∈ s.fieldsOf type)
      (hembeds : d.Embeds inner) (hrecord : value.bare.record? = some r)
      (hunset : ∀ below ∈ Plan.below d.name entries, r.given? below.path = none) :
    Vacant s type entries d.name value
  | unread {name : String} {value : Value} (h : ∀ e ∈ entries, e.path.head? ≠ some name) :
    Vacant s type entries name value

/-- One edit at a place. Presence is put around values that have none (`bare` changes nothing) and, in
a field, are set. With `members` also around the members of `in` and `not in`. -/
inductive Edits (s : Schema) (members : Bool) : Place → Value → Value → Prop where
  | snapshotPresence {value : Value} (hbare : value.bare = value) :
    Edits s members .snapshot value (.present value)
  | snapshotFields {type : TypeId} {plan : Plan} {fields edited : List (String × Value)}
      (hplan : s.plan type = .ok plan)
      (h : Edits s members (.record type plan.entries) (.record type fields) (.record type edited)) :
    Edits s members .snapshot (.record type fields) (.record type edited)
  | vacant {type own : TypeId} {entries : List Plan.Entry} {before after : List (String × Value)}
      {name : String} {value : Value} (hnew : name ∉ (before ++ after).map (·.1))
      (hvacant : s.Vacant type entries name value) :
    Edits s members (.record type entries) (.record own (before ++ after))
      (.record own (before ++ (name, value) :: after))
  | order {type own : TypeId} {entries : List Plan.Entry} {fields moved : List (String × Value)}
      (hnames : (fields.map (·.1)).Nodup) (hmoved : fields.Perm moved) :
    Edits s members (.record type entries) (.record own fields) (.record own moved)
  | fieldValue {type own : TypeId} {entries : List Plan.Entry} {before after : List (String × Value)}
      {name : String} {value edited : Value} (hnew : name ∉ (before ++ after).map (·.1))
      (h : Edits s members (.field type entries name) value edited) :
    Edits s members (.record type entries) (.record own (before ++ (name, value) :: after))
      (.record own (before ++ (name, edited) :: after))
  | presence {type : TypeId} {entries : List Plan.Entry} {name : String} {value : Value}
      (hset : value.isEmpty = false) (hbare : value.bare = value) :
    Edits s members (.field type entries name) value (.present value)
  | embedded {type inner own : TypeId} {entries : List Plan.Entry} {d : Declaration}
      {fields edited : List (String × Value)} (hd : d ∈ s.fieldsOf type) (hembeds : d.Embeds inner)
      (h : Edits s members (.record inner (Plan.below d.name entries)) (.record own fields)
        (.record own edited)) :
    Edits s members (.field type entries d.name) (.record own fields) (.record own edited)
  | member {type : TypeId} {entries : List Plan.Entry} {e : Plan.Entry} {name column : String}
      {before after : List Value} {item : Value} (hmembers : members = true) (he : e ∈ entries)
      (hpath : e.path = [name]) (htarget : e.target = .column column)
      (hquery : e.queryOp.isMembership = true) (hbare : item.bare = item) :
    Edits s members (.field type entries name) (.list (before ++ item :: after))
      (.list (before ++ .present item :: after))
  | group {type : TypeId} {entries : List Plan.Entry} {e : Plan.Entry} {name : String} {plan : Plan}
      {value edited : Value} (he : e ∈ entries) (hpath : e.path = [name])
      (htarget : e.target = .group plan.type) (hplan : s.plan plan.type = .ok plan)
      (h : Edits s members (.group plan) value edited) :
    Edits s members (.field type entries name) value edited
  | presentGroup {type : TypeId} {entries : List Plan.Entry} {e : Plan.Entry} {name : String}
      {plan : Plan} {value edited : Value} (he : e ∈ entries) (hpath : e.path = [name])
      (htarget : e.target = .group plan.type) (hplan : s.plan plan.type = .ok plan)
      (h : Edits s members (.group plan) value edited) :
    Edits s members (.field type entries name) (.present value) (.present edited)
  | single {plan : Plan} {own : TypeId} {fields : List (String × Value)} :
    Edits s members (.group plan) (.record own fields) (.list [.record own fields])
  | idle {plan : Plan} {before after : List Value} {item : Value} {r : Record}
      (hrecord : item.normalize = .ok r)
      (hidle : (Condition.parts r plan.entries).run s.plan = .ok []) :
    Edits s members (.group plan) (.list (before ++ after)) (.list (before ++ item :: after))
  | item {plan : Plan} {before after : List Value} {item edited : Value}
      (h : Edits s members (.alternative plan) item edited) :
    Edits s members (.group plan) (.list (before ++ item :: after))
      (.list (before ++ edited :: after))
  | itemPresence {plan : Plan} {item : Value} (hbare : item.bare = item) :
    Edits s members (.alternative plan) item (.present item)
  | itemFields {plan : Plan} {own : TypeId} {fields edited : List (String × Value)}
      (h : Edits s members (.record plan.type plan.entries) (.record own fields) (.record own edited)) :
    Edits s members (.alternative plan) (.record own fields) (.record own edited)

structure Unchanged (s : Schema) (members : Bool) (e : Plan.Entry) (r other : Record) : Prop where
  made : Condition.made s.plan r e = Condition.made s.plan other e
  given : members = false → ∀ column, e.target = .column column → r.given? e.path = other.given? e.path

variable {s : Schema} {members : Bool} {type own : TypeId} {entries : List Plan.Entry}
  {e : Plan.Entry} {name : String} {value edited : Value} {r other : Record} {plan : Plan}
  {d : Declaration} {inner : TypeId}

theorem Unchanged.of_given (h : r.given? e.path = other.given? e.path) : s.Unchanged members e r other :=
  ⟨Condition.made_congr ⟨rfl, rfl, rfl⟩ h, fun _ _ _ => h⟩

theorem Unchanged.of_value {before after : List (String × Value)}
    (hnew : name ∉ (before ++ after).map (·.1))
    (h : ∀ path, e.path = name :: path →
      s.Unchanged members e ⟨type, [(name, value)]⟩ ⟨type, [(name, edited)]⟩) :
    s.Unchanged members e ⟨own, before ++ (name, value) :: after⟩
      ⟨own, before ++ (name, edited) :: after⟩ := by
  -- an entry reads this field from its record as from a record of this field alone, or it reads another
  have hbefore : name ∉ before.map (·.1) := fun hmem =>
    hnew (by rw [List.map_append]; exact List.mem_append_left _ hmem)
  have hsingle : ∀ value : Value, (Record.mk own (before ++ (name, value) :: after)).get? name =
      (Record.mk type [(name, value)]).get? name := fun value =>
    (Keyed.lookup_middle hbefore value after).trans (Record.get?_single type name value).symm
  cases hpath : e.path with
  | nil =>
    refine .of_given ?_
    rw [hpath, Record.given?_nil, Record.given?_nil]
  | cons step path =>
    by_cases hstep : name = step
    · subst hstep
      have hgiven : ∀ value : Value,
          (Record.mk own (before ++ (name, value) :: after)).given? e.path =
            (Record.mk type [(name, value)]).given? e.path := by
        intro value
        rw [hpath]
        exact Record.given?_congr path (hsingle value)
      have hmade : ∀ value : Value,
          Condition.made s.plan ⟨own, before ++ (name, value) :: after⟩ e =
            Condition.made s.plan ⟨type, [(name, value)]⟩ e := fun value =>
        Condition.made_congr ⟨rfl, rfl, rfl⟩ (hgiven value)
      have halone := h path hpath
      constructor
      · rw [hmade, hmade, halone.made]
      · intro hmembers column htarget
        rw [hgiven, hgiven, halone.given hmembers column htarget]
    · refine .of_given ?_
      rw [hpath]
      refine Record.given?_congr path ?_
      exact (Keyed.lookup_middle_of_ne hstep before value after).trans
        (Keyed.lookup_middle_of_ne hstep before edited after).symm

theorem Unchanged.of_perm {fields moved : List (String × Value)} (hnames : (fields.map (·.1)).Nodup)
    (hmoved : fields.Perm moved) : s.Unchanged members e ⟨own, fields⟩ ⟨own, moved⟩ := by
  refine .of_given ?_
  cases e.path with
  | nil => rfl
  | cons step path => exact Record.given?_congr path (Keyed.lookup_perm step hnames hmoved)

theorem Vacant.given?_eq_none (h : s.Vacant type entries name value) (hnames : s.DistinctNames)
    (hfits : s.Fits type entries) (he : e ∈ entries) {path : List String} (hpath : e.path = name :: path) :
    (Record.mk own [(name, value)]).given? (name :: path) = none := by
  cases h with
  | empty _ _ hempty => exact Record.given?_single_of_isEmpty path hempty
  | absent => exact Record.given?_single_of_isEmpty path rfl
  | @hollow d inner _ r hd hembeds hrecord hunset =>
    have hne : path ≠ [] := fun hnil => hfits.path_ne hnames hd hembeds he (hnil ▸ hpath)
    rw [Record.given?_single_of_record hne hrecord]
    exact hunset { e with path := path } (Plan.mem_below_iff.2 ⟨e, he, hpath, hne, rfl⟩)
  | unread hunread => exact absurd (by rw [hpath]; rfl) (hunread e he)

theorem unchanged_vacant {before after : List (String × Value)} (hnames : s.DistinctNames)
    (hfits : s.Fits type entries) (hnew : name ∉ (before ++ after).map (·.1))
    (hvacant : s.Vacant type entries name value) (he : e ∈ entries) :
    s.Unchanged members e ⟨own, before ++ after⟩ ⟨own, before ++ (name, value) :: after⟩ := by
  refine .of_given ?_
  cases hpath : e.path with
  | nil => rfl
  | cons step path =>
    by_cases hstep : name = step
    · subst hstep
      have hbefore : name ∉ before.map (·.1) := fun hmem =>
        hnew (by rw [List.map_append]; exact List.mem_append_left _ hmem)
      have hmissing : (Record.mk own (before ++ after)).get? name = none := Keyed.lookup_eq_none hnew
      have hget : (Record.mk own (before ++ (name, value) :: after)).get? name =
          (Record.mk own [(name, value)]).get? name :=
        (Keyed.lookup_middle hbefore value after).trans (Record.get?_single own name value).symm
      rw [Record.given?_eq_none_of_missing path hmissing, Record.given?_congr path hget,
        hvacant.given?_eq_none hnames hfits he hpath]
    · exact Record.given?_congr path (Keyed.lookup_middle_of_ne hstep before value after).symm

theorem unchanged_presence (hset : value.isEmpty = false) (hbare : value.bare = value)
    {path : List String} (hpath : e.path = name :: path) :
    s.Unchanged members e ⟨type, [(name, value)]⟩ ⟨type, [(name, .present value)]⟩ := by
  refine .of_given ?_
  rw [hpath]
  by_cases hne : path = []
  · rw [hne, Record.given?_single, Record.given?_single, hset, hbare]
    rfl
  · have hsame : (Value.present value).bare = value.bare := hbare.symm
    cases hrecord : value.bare.record? with
    | none =>
      rw [Record.given?_single_of_no_record hne hrecord,
        Record.given?_single_of_no_record hne (hsame ▸ hrecord)]
    | some r =>
      rw [Record.given?_single_of_record hne hrecord,
        Record.given?_single_of_record hne (hsame ▸ hrecord)]

theorem unchanged_embedded {fields edited : List (String × Value)} (hnames : s.DistinctNames)
    (hfits : s.Fits type entries) (hd : d ∈ s.fieldsOf type) (hembeds : d.Embeds inner)
    (h : ∀ below ∈ Plan.below d.name entries, s.Unchanged members below ⟨own, fields⟩ ⟨own, edited⟩)
    (he : e ∈ entries) {path : List String} (hpath : e.path = d.name :: path) :
    s.Unchanged members e ⟨type, [(d.name, .record own fields)]⟩
      ⟨type, [(d.name, .record own edited)]⟩ := by
  have hne : path ≠ [] := fun hnil => hfits.path_ne hnames hd hembeds he (hnil ▸ hpath)
  have hbelow := h { e with path := path } (Plan.mem_below_iff.2 ⟨e, he, hpath, hne, rfl⟩)
  have hgiven : ∀ fields : List (String × Value),
      (Record.mk type [(d.name, .record own fields)]).given? e.path =
        (Record.mk own fields).given? path := by
    intro fields
    rw [hpath]
    exact Record.given?_single_of_record hne rfl
  have hmade : ∀ fields : List (String × Value),
      Condition.made s.plan ⟨type, [(d.name, .record own fields)]⟩ e =
        Condition.made s.plan ⟨own, fields⟩ { e with path := path } :=
    fun fields => Condition.made_congr ⟨rfl, rfl, rfl⟩ (hgiven fields)
  constructor
  · rw [hmade, hmade, hbelow.made]
  · intro hmembers column htarget
    rw [hgiven, hgiven]
    exact hbelow.given hmembers column htarget

theorem leaf_member {column : String} {before after : List Value} {item : Value}
    (hquery : e.queryOp.isMembership = true) (hbare : item.bare = item) :
    Condition.leaf e column (.list (before ++ item :: after)) =
      Condition.leaf e column (.list (before ++ .present item :: after)) := by
  have hmembers : QueryOp.members column (.list (before ++ item :: after)) =
      QueryOp.members column (.list (before ++ .present item :: after)) := by
    have hpresent : (Value.present item).bare = item := rfl
    simp only [QueryOp.members, List.map_append, List.map_cons, hbare, hpresent]
  unfold Condition.leaf
  cases hop : e.queryOp with
  | among => simp only [QueryOp.leaf?, hmembers]
  | notAmong => simp only [QueryOp.leaf?, hmembers]
  | _ => rw [hop] at hquery; cases hquery

theorem unchanged_member {twin : Plan.Entry} {column : String} {before after : List Value} {item : Value}
    (hnames : s.DistinctNames) (hfits : s.Fits type entries) (he : e ∈ entries) (hpath : e.path = [name])
    (htarget : e.target = .column column) (hquery : e.queryOp.isMembership = true)
    (hbare : item.bare = item) (htwin : twin ∈ entries) {path : List String}
    (hrest : twin.path = name :: path) :
    s.Unchanged true twin ⟨type, [(name, .list (before ++ item :: after))]⟩
      ⟨type, [(name, .list (before ++ .present item :: after))]⟩ := by
  obtain rfl := hfits.path_eq hnames he hpath htwin hrest
  obtain ⟨hsame, hop⟩ := hfits.target_eq hnames he hpath htwin hrest
  have hgiven : ∀ item : Value,
      (Record.mk type [(name, .list (before ++ item :: after))]).given? twin.path =
        some (.list (before ++ item :: after)) := by
    intro item
    rw [hrest, Record.given?_single, if_neg]
    · rfl
    · simp [Value.isEmpty]
  have htwinQuery : twin.queryOp.isMembership = true := by
    rw [Plan.Entry.queryOp, hop]
    exact hquery
  refine ⟨?_, fun hfalse => by cases hfalse⟩
  rw [Condition.made_of_set (hgiven _), Condition.made_of_set (hgiven _),
    Condition.run_part_column _ _ (hsame.trans htarget),
    Condition.run_part_column _ _ (hsame.trans htarget), leaf_member htwinQuery hbare]

theorem made_group (hplan : s.plan plan.type = .ok plan) (htarget : e.target = .group plan.type)
    (hgiven : r.given? e.path = some value) :
    Condition.made s.plan r e =
      ((Condition.branches plan value.alternatives).run s.plan).map (Condition.join false) := by
  rw [Condition.made_of_set hgiven, Condition.run_part_group _ _ htarget, hplan]
  rfl

theorem made_single_group (hplan : s.plan plan.type = .ok plan) (htarget : e.target = .group plan.type)
    (hpath : e.path = [name]) (hholds : value.HoldsAlternatives) :
    Condition.made s.plan ⟨type, [(name, value)]⟩ e =
        ((Condition.branches plan value.alternatives).run s.plan).map (Condition.join false) ∧
      Condition.made s.plan ⟨type, [(name, .present value)]⟩ e =
        ((Condition.branches plan value.alternatives).run s.plan).map (Condition.join false) := by
  have hpresent : (Record.mk type [(name, .present value)]).given? e.path = some value := by
    rw [hpath, Record.given?_single]
    rfl
  refine ⟨?_, made_group hplan htarget hpresent⟩
  -- an empty list is unset, and an empty disjunction is none
  cases hset : value.isEmpty with
  | true =>
    have hunset : (Record.mk type [(name, value)]).given? e.path = none := by
      rw [hpath, Record.given?_single, if_pos hset]
    rw [Condition.made_of_unset hunset, hholds.alternatives_eq_nil hset, Condition.branches_nil]
    rfl
  | false =>
    have hgiven : (Record.mk type [(name, value)]).given? e.path = some value := by
      rw [hpath, Record.given?_single, hset, hholds.bare_eq]
      rfl
    exact made_group hplan htarget hgiven

def Keeps (s : Schema) (members : Bool) : Place → Value → Value → Prop
  | .snapshot, value, edited =>
    (Condition.ofValue value).run s.plan = (Condition.ofValue edited).run s.plan ∧
      (members = false → ∀ dialect,
        (Assignments.ofValue dialect value).run s.plan = (Assignments.ofValue dialect edited).run s.plan)
  | .record type entries, value, edited =>
    s.Fits type entries → ∀ r other, value.record? = some r → edited.record? = some other →
      ∀ e ∈ entries, s.Unchanged members e r other
  | .field type entries name, value, edited =>
    s.Fits type entries → ∀ e ∈ entries, ∀ path, e.path = name :: path →
      s.Unchanged members e ⟨type, [(name, value)]⟩ ⟨type, [(name, edited)]⟩
  | .group plan, value, edited =>
    s.plan plan.type = .ok plan → value.HoldsAlternatives ∧ edited.HoldsAlternatives ∧
      (Condition.branches plan value.alternatives).run s.plan =
        (Condition.branches plan edited.alternatives).run s.plan
  | .alternative plan, item, edited =>
    s.plan plan.type = .ok plan →
      (Condition.branches plan [item]).run s.plan = (Condition.branches plan [edited]).run s.plan

theorem keeps_record {fields moved : List (String × Value)}
    (h : s.Fits type entries → ∀ e ∈ entries, s.Unchanged members e ⟨own, fields⟩ ⟨own, moved⟩) :
    s.Keeps members (.record type entries) (.record own fields) (.record own moved) := by
  intro hfits r other hr hother e he
  obtain rfl := Option.some.inj hr
  obtain rfl := Option.some.inj hother
  exact h hfits e he

/-- All entries with the field of a group are entries of this group. -/
theorem keeps_field_of_group (hnames : s.DistinctNames) (he : e ∈ entries) (hpath : e.path = [name])
    (htarget : e.target = .group plan.type)
    (h : ∀ twin : Plan.Entry, twin.path = [name] → twin.target = .group plan.type →
      Condition.made s.plan ⟨type, [(name, value)]⟩ twin =
        Condition.made s.plan ⟨type, [(name, edited)]⟩ twin) :
    s.Keeps members (.field type entries name) value edited := by
  intro hfits twin htwin path hrest
  obtain rfl := hfits.path_eq hnames he hpath htwin hrest
  have hgroup := (hfits.target_eq hnames he hpath htwin hrest).1.trans htarget
  refine ⟨h twin hrest hgroup, fun _ column hcolumn => ?_⟩
  rw [hgroup] at hcolumn
  cases hcolumn

theorem keeps_group (hnames : s.DistinctNames) (he : e ∈ entries) (hpath : e.path = [name])
    (htarget : e.target = .group plan.type) (hplan : s.plan plan.type = .ok plan)
    (h : s.Keeps members (.group plan) value edited) :
    s.Keeps members (.field type entries name) value edited ∧
      s.Keeps members (.field type entries name) (.present value) (.present edited) := by
  obtain ⟨hholds, hedited, hbranches⟩ := h hplan
  constructor
  · refine keeps_field_of_group hnames he hpath htarget fun twin hrest hgroup => ?_
    rw [(made_single_group hplan hgroup hrest hholds).1, (made_single_group hplan hgroup hrest hedited).1,
      hbranches]
  · refine keeps_field_of_group hnames he hpath htarget fun twin hrest hgroup => ?_
    rw [(made_single_group hplan hgroup hrest hholds).2, (made_single_group hplan hgroup hrest hedited).2,
      hbranches]

theorem keeps_snapshot (hplan : s.plan r.type = .ok plan) (hvalue : value.normalize = .ok r)
    (hedited : edited.normalize = .ok other) (htype : other.type = r.type)
    (h : ∀ e ∈ plan.entries, s.Unchanged members e r other) :
    s.Keeps members .snapshot value edited := by
  constructor
  · have hparts := Condition.run_parts_congr (List.forall₂_same.2 fun e he => (h e he).made)
    rw [Condition.run_ofValue_record _ hvalue, Condition.run_ofValue_record _ hedited, htype, hplan]
    exact congrArg (Except.map (Condition.join true)) hparts
  · intro hmembers dialect
    rw [Assignments.run_ofValue_of_normalize _ hvalue, Assignments.run_ofValue_of_normalize _ hedited,
      htype, hplan]
    exact Assignments.foldlM_addEntry_congr (List.forall₂_same.2 fun e he =>
      Assignments.addEntry_congr rfl rfl fun column htarget =>
        (h e he).given hmembers column htarget) _

theorem normalize_present (hbare : value.bare = value) :
    (Value.present value).normalize = value.normalize := by
  have hpresent : (Value.present value).bare = value.bare := hbare.symm
  rw [Value.normalize, Value.normalize, hpresent]

theorem keeps_snapshotPresence (hbare : value.bare = value) :
    s.Keeps members .snapshot value (.present value) := by
  have hnormalize := normalize_present hbare
  refine ⟨?_, fun _ dialect => ?_⟩
  · rw [Condition.ofValue, Condition.ofValue, hnormalize]
  · rw [Assignments.ofValue, Assignments.ofValue, hnormalize]

theorem Edits.keeps {place : Place} (hnames : s.DistinctNames)
    (h : s.Edits members place value edited) : s.Keeps members place value edited := by
  -- from the edited place outwards: what is kept there is all that the place around it asks for
  induction h with
  | snapshotPresence hbare => exact keeps_snapshotPresence hbare
  | @snapshotFields type plan fields edited hplan _ ih =>
    exact keeps_snapshot (r := ⟨type, fields⟩) hplan rfl rfl rfl (ih (fits_plan hplan) _ _ rfl rfl)
  | vacant hnew hvacant =>
    exact keeps_record fun hfits e he => unchanged_vacant hnames hfits hnew hvacant he
  | order hdistinct hmoved => exact keeps_record fun _ _ _ => .of_perm hdistinct hmoved
  | fieldValue hnew _ ih =>
    exact keeps_record fun hfits e he => .of_value hnew fun path hpath => ih hfits e he path hpath
  | presence hset hbare =>
    intro hfits e he path hpath
    exact unchanged_presence hset hbare hpath
  | embedded hd hembeds _ ih =>
    intro hfits e he path hpath
    have hbelow := ih (hfits.below hnames hd hembeds) _ _ rfl rfl
    exact unchanged_embedded hnames hfits hd hembeds hbelow he hpath
  | member hmembers he hpath htarget hquery hbare =>
    intro hfits twin htwin path hrest
    subst hmembers
    exact unchanged_member hnames hfits he hpath htarget hquery hbare htwin hrest
  | group he hpath htarget hplan _ ih => exact (keeps_group hnames he hpath htarget hplan ih).1
  | presentGroup he hpath htarget hplan _ ih => exact (keeps_group hnames he hpath htarget hplan ih).2
  | single => exact fun _ => ⟨.record _ _, .list _, rfl⟩
  | @idle plan before after item r hrecord hidle =>
    intro hplan
    have hnone : (Condition.branches plan [item]).run s.plan = .ok [] := by
      rw [Condition.run_branches_of_normalize hrecord, hidle]
      rfl
    exact ⟨.list _, .list _, (Condition.run_branches_idle hnone _ _).symm⟩
  | item _ ih =>
    intro hplan
    exact ⟨.list _, .list _, Condition.run_branches_congr_item (ih hplan) _ _⟩
  | @itemPresence plan item hbare =>
    intro hplan
    have hnormalize := normalize_present hbare
    cases hitem : item.normalize with
    | error e =>
      rw [Condition.run_branches_error _ [] hitem, Condition.run_branches_error _ [] (hnormalize.trans hitem)]
    | ok r =>
      rw [Condition.run_branches_of_normalize hitem,
        Condition.run_branches_of_normalize (hnormalize.trans hitem)]
  | @itemFields plan own fields edited _ ih =>
    intro hplan
    have hparts := Condition.run_parts_congr
      (List.forall₂_same.2 fun e he => (ih (fits_plan hplan) _ _ rfl rfl e he).made)
    have hvalue : (Value.record own fields).normalize = .ok ⟨own, fields⟩ := rfl
    have hedited : (Value.record own edited).normalize = .ok ⟨own, edited⟩ := rfl
    rw [Condition.run_branches_of_normalize hvalue, Condition.run_branches_of_normalize hedited, hparts]

/-- What a chain of edits leads to is built like what it starts from: a condition after edits of every
kind, and assignments after all but those of members. -/
theorem builders_of_edits (s : Schema) (hnames : s.DistinctNames) {value edited : Value} :
    (Relation.EqvGen (s.Edits true .snapshot) value edited →
      (Condition.ofValue value).run s.plan = (Condition.ofValue edited).run s.plan) ∧
    (Relation.EqvGen (s.Edits false .snapshot) value edited →
      (Condition.ofValue value).run s.plan = (Condition.ofValue edited).run s.plan ∧
      ∀ dialect,
        (Assignments.ofValue dialect value).run s.plan = (Assignments.ofValue dialect edited).run s.plan) := by
  constructor
  · intro h
    induction h with
    | rel _ _ hedit => exact (hedit.keeps hnames).1
    | refl => rfl
    | symm _ _ _ ih => exact ih.symm
    | trans _ _ _ _ _ ih next => exact ih.trans next
  · intro h
    induction h with
    | rel _ _ hedit =>
      obtain ⟨hcondition, hassignments⟩ := hedit.keeps hnames
      exact ⟨hcondition, hassignments rfl⟩
    | refl => exact ⟨rfl, fun _ => rfl⟩
    | symm _ _ _ ih => exact ⟨ih.1.symm, fun dialect => (ih.2 dialect).symm⟩
    | trans _ _ _ _ _ ih next =>
      exact ⟨ih.1.trans next.1, fun dialect => (ih.2 dialect).trans (next.2 dialect)⟩

def pagingField : Declaration := ⟨"paging", .optional (.struct 1), true, {}⟩

def filters : Schema :=
  ⟨[⟨"Filter", [⟨"ids", .list .int, false, ⟨some "id", some "in", none⟩⟩, pagingField,
      ⟨"any", .list (.struct 0), false, ⟨none, some "or", none⟩⟩]⟩,
    ⟨"Paging", [⟨"size", .int, false, ⟨some "size", none, none⟩⟩]⟩]⟩

def idsEntry : Plan.Entry :=
  ⟨"ids", ["ids"], .column "id", some .among, none, [("column", "id"), ("query", "in")]⟩

def anyEntry : Plan.Entry := ⟨"any", ["any"], .group 0, some .or, none, [("query", "or")]⟩

def filterPlan : Plan :=
  ⟨0, [idsEntry, ⟨"size", ["paging", "size"], .column "size", none, none, [("column", "size")]⟩,
    anyEntry]⟩

theorem filters_distinctNames : filters.DistinctNames := by
  rintro (_ | _ | type) <;> simp [filters, pagingField, fieldsOf, struct?]

theorem filters_plan : filters.plan 0 = .ok filterPlan := by cbv

def idsField (n : Int64) : String × Value := ("ids", .list [.int n])

def emptyPaging : Value := .record 1 [("size", .int 0)]

theorem filters_vacant : filters.Vacant 0 filterPlan.entries "paging" emptyPaging := by
  have hd : pagingField ∈ filters.fieldsOf 0 := by decide
  refine .hollow (d := pagingField) (r := ⟨1, [("size", .int 0)]⟩) hd ⟨rfl, rfl⟩ rfl fun below hbelow => ?_
  have hentry : Plan.below "paging" filterPlan.entries =
      [⟨"size", ["size"], .column "size", none, none, [("column", "size")]⟩] := by decide
  obtain rfl := List.mem_singleton.1 (hentry ▸ hbelow)
  rfl

def storedFilter : Value :=
  .record 0 [idsField 7, ("any", .list [.record 0 [("paging", emptyPaging), idsField 3]])]

def tidiedFilter : Value :=
  .present (.record 0
    [("any", .present (.list [.record 0 [idsField 3], .record 0 [("paging", .null)]])), idsField 7])

theorem edits_storedFilter (members : Bool) :
    Relation.EqvGen (filters.Edits members .snapshot) storedFilter tidiedFilter := by
  have hany : ∀ value edited, filters.Edits members (.field 0 filterPlan.entries "any") value edited →
      filters.Edits members .snapshot (.record 0 [idsField 7, ("any", value)])
        (.record 0 [idsField 7, ("any", edited)]) := by
    intro value edited h
    refine .snapshotFields filters_plan ?_
    exact @Edits.fieldValue _ _ _ _ _ [idsField 7] [] _ _ _ (by decide) h
  have hgroup : ∀ value edited, filters.Edits members (.group filterPlan) value edited →
      filters.Edits members (.field 0 filterPlan.entries "any") value edited := by
    intro value edited h
    exact .group (e := anyEntry) (by decide) rfl rfl filters_plan h
  have hpaging : filters.Edits members (.group filterPlan) (.list [.record 0 [idsField 3]])
      (.list [.record 0 [("paging", emptyPaging), idsField 3]]) :=
    @Edits.item _ _ _ [] [] _ _ (.itemFields
      (@Edits.vacant _ _ _ _ _ [] [idsField 3] _ _ (by decide) filters_vacant))
  have hidle : filters.Edits members (.group filterPlan) (.list [.record 0 [idsField 3]])
      (.list [.record 0 [idsField 3], .record 0 [("paging", .null)]]) :=
    @Edits.idle _ _ _ [.record 0 [idsField 3]] [] _ ⟨0, [("paging", .null)]⟩ rfl (by cbv)
  have hpresence : filters.Edits members (.field 0 filterPlan.entries "any")
      (.list [.record 0 [idsField 3], .record 0 [("paging", .null)]])
      (.present (.list [.record 0 [idsField 3], .record 0 [("paging", .null)]])) :=
    .presence rfl rfl
  have horder : filters.Edits members .snapshot
      (.record 0 [idsField 7,
        ("any", .present (.list [.record 0 [idsField 3], .record 0 [("paging", .null)]]))])
      (.record 0 [("any", .present (.list [.record 0 [idsField 3], .record 0 [("paging", .null)]])),
        idsField 7]) :=
    .snapshotFields filters_plan (.order (by decide) (List.Perm.swap _ _ _))
  have hstart := (Relation.EqvGen.rel _ _ (hany _ _ (hgroup _ _ hpaging))).symm
  have hmiddle := (hstart.trans _ _ _ (.rel _ _ (hany _ _ (hgroup _ _ hidle)))).trans _ _ _
    (.rel _ _ (hany _ _ hpresence))
  exact (hmiddle.trans _ _ _ (.rel _ _ horder)).trans _ _ _ (.rel _ _ (.snapshotPresence rfl))

theorem builders_tidiedFilter :
    filters.DistinctNames ∧ Relation.EqvGen (filters.Edits true .snapshot) storedFilter tidiedFilter ∧
      Relation.EqvGen (filters.Edits false .snapshot) storedFilter tidiedFilter ∧
      (Condition.ofValue storedFilter).run filters.plan =
        (Condition.ofValue tidiedFilter).run filters.plan ∧
      (Assignments.ofValue .mysql storedFilter).run filters.plan =
        (Assignments.ofValue .mysql tidiedFilter).run filters.plan :=
  ⟨filters_distinctNames, edits_storedFilter true, edits_storedFilter false,
    (builders_of_edits filters filters_distinctNames).1 (edits_storedFilter true),
    ((builders_of_edits filters filters_distinctNames).2 (edits_storedFilter false)).2 .mysql⟩

end Schema

end Criteria
