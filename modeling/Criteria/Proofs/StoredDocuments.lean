import Criteria.Proofs.FieldPlaces
import Criteria.Proofs.MergedDeclarations
import Criteria.Proofs.Readings
import Criteria.Proofs.SerializedFields

/-!
Snapshots that hold documents. A field that merges is stored as its serialized document. Along the path of
an entry a stored record gives nothing where the plain one gives nothing, and otherwise the same value,
with its own fields stored, or a document in its place.
-/

set_option autoImplicit false

namespace Criteria

def QueryOp.isComparison : QueryOp → Bool
  | .eq | .ne | .lt | .lte | .gt | .gte => true
  | _ => false

namespace Schema

def entriesFor (s : Schema) (type : TypeId) : List Plan.Entry :=
  match s.plan type with
  | .ok plan => plan.entries
  | .error _ => []

def inside (s : Schema) (entries : List Plan.Entry) (name : String) : List Plan.Entry :=
  Plan.below name entries ++ (entries.filter fun e => e.path = [name]).flatMap fun e =>
    match e.target with
    | .group type => s.entriesFor type
    | .column _ => []

def Merges (s t : Schema) (type : TypeId) (name : String) : Prop :=
  ∃ pair ∈ (s.fieldsOf type).zip (t.fieldsOf type), pair.1.name = name ∧ pair.2 ≠ pair.1

instance (s t : Schema) (type : TypeId) (name : String) : Decidable (s.Merges t type name) :=
  inferInstanceAs (Decidable (∃ pair ∈ (s.fieldsOf type).zip (t.fieldsOf type), _))

structure StoredAs (s t : Schema) (type : TypeId) (plain stored : String × Value) : Prop where
  name_eq : stored.1 = plain.1
  merged : s.Merges t type plain.1 → ∃ outcome, stored.2 = plain.2.ofSerialized outcome
  kept : ¬ s.Merges t type plain.1 → stored.2 = plain.2

/-- A value of a shape, from which `entries` are read, and the same value as it is stored under the
declarations of `t`, at every depth. `allowed` restricts the fields that are stored as documents. -/
inductive Stores (s t : Schema) (allowed : List Plan.Entry → String → Value → Prop) :
    List Plan.Entry → Shape → Value → Value → Prop where
  | same (entries : List Plan.Entry) (shape : Shape) (value : Value) :
    Stores s t allowed entries shape value value
  | present {entries : List Plan.Entry} {shape : Shape} {value stored : Value}
      (h : Stores s t allowed entries shape.required value stored) :
    Stores s t allowed entries shape (.present value) (.present stored)
  | any {entries : List Plan.Entry} {shape inner : Shape} {value stored : Value}
      (hshape : shape.required = .any) (h : Stores s t allowed entries inner value stored) :
    Stores s t allowed entries shape value stored
  | list {entries : List Plan.Entry} {shape element : Shape} {items stored : List Value}
      (hshape : shape.required = .list element) (hlength : items.length = stored.length)
      (hitems : ∀ pair ∈ items.zip stored, Stores s t allowed entries element pair.1 pair.2) :
    Stores s t allowed entries shape (.list items) (.list stored)
  | map {entries : List Plan.Entry} {shape element : Shape} {values stored : List (String × Value)}
      (hshape : shape.required = .map element) (hkeys : values.map (·.1) = stored.map (·.1))
      (hvalues : ∀ pair ∈ values.zip stored, Stores s t allowed [] element pair.1.2 pair.2.2) :
    Stores s t allowed entries shape (.map values) (.map stored)
  | struct {entries : List Plan.Entry} {shape : Shape} {type own : TypeId}
      {fields plain stored : List (String × Value)} (hshape : shape.required = .struct type)
      (hnames : fields.map (·.1) = plain.map (·.1))
      (hplain : ∀ pair ∈ fields.zip plain, ∀ d ∈ s.fieldsOf type, d.name = pair.1.1 →
        Stores s t allowed (s.inside entries pair.1.1) d.shape pair.1.2 pair.2.2)
      (hundeclared : ∀ pair ∈ fields.zip plain, pair.1.1 ∉ (s.fieldsOf type).map (·.name) →
        pair.2.2 = pair.1.2)
      (hallowed : ∀ field ∈ fields, s.Merges t type field.1 → allowed entries field.1 field.2)
      (hstored : List.Forall₂ (s.StoredAs t type) plain stored) :
    Stores s t allowed entries shape (.record own fields) (.record own stored)

variable {s t : Schema} {allowed : List Plan.Entry → String → Value → Prop} {shape : Shape}
  {type : TypeId} {entries : List Plan.Entry} {e : Plan.Entry} {name : String}
  {value stored : Value} {r other : Record}

theorem entriesFor_of_plan {plan : Plan} (h : s.plan type = .ok plan) : s.entriesFor type = plan.entries := by
  rw [entriesFor, h]

theorem mem_inside_of_mem_below (h : e ∈ Plan.below name entries) : e ∈ s.inside entries name :=
  List.mem_append_left _ h

theorem mem_inside_of_group (he : e ∈ entries) (hpath : e.path = [name]) (htarget : e.target = .group type)
    {below : Plan.Entry} (h : below ∈ s.entriesFor type) : below ∈ s.inside entries name := by
  refine List.mem_append_right _ (List.mem_flatMap.2 ⟨e, ?_, ?_⟩)
  · exact List.mem_filter.2 ⟨he, by simpa using hpath⟩
  · rw [htarget]
    exact h

structure SameKind (value stored : Value) : Prop where
  isEmpty_eq : stored.isEmpty = value.isEmpty
  text?_eq : stored.text? = value.text?
  bool?_eq : stored.bool? = value.bool?
  list?_isSome_eq : stored.list?.isSome = value.list?.isSome
  record?_isSome_eq : stored.record?.isSome = value.record?.isSome

theorem isEmpty_eq_of_length_eq {α β : Type} {xs : List α} {ys : List β}
    (h : xs.length = ys.length) : ys.isEmpty = xs.isEmpty := by
  cases xs with
  | nil => rw [List.eq_nil_of_length_eq_zero h.symm]; rfl
  | cons x xs =>
    cases ys with
    | nil => cases h
    | cons y ys => rfl

theorem Stores.sameKind (h : s.Stores t allowed entries shape value stored) : SameKind value stored := by
  induction h with
  | same => exact ⟨rfl, rfl, rfl, rfl, rfl⟩
  | present => exact ⟨rfl, rfl, rfl, rfl, rfl⟩
  | any _ _ ih => exact ih
  | list _ hlength _ => exact ⟨isEmpty_eq_of_length_eq hlength, rfl, rfl, rfl, rfl⟩
  | map _ hkeys _ =>
    have hlength := congrArg List.length hkeys
    rw [List.length_map, List.length_map] at hlength
    exact ⟨isEmpty_eq_of_length_eq hlength, rfl, rfl, rfl, rfl⟩
  | struct => exact ⟨rfl, rfl, rfl, rfl, rfl⟩

theorem Stores.bare (h : s.Stores t allowed entries shape value stored) :
    ∃ shape, s.Stores t allowed entries shape value.bare stored.bare := by
  induction h with
  | same => exact ⟨shape, .same _ _ _⟩
  | present h => exact ⟨_, h⟩
  | any _ _ ih => exact ih
  | list hshape hlength hitems => exact ⟨_, .list hshape hlength hitems⟩
  | map hshape hkeys hvalues => exact ⟨_, .map hshape hkeys hvalues⟩
  | struct hshape hnames hplain hundeclared hallowed hstored =>
    exact ⟨_, .struct hshape hnames hplain hundeclared hallowed hstored⟩

inductive Holds (s t : Schema) (allowed : List Plan.Entry → String → Value → Prop)
    (entries : List Plan.Entry) (name : String) (value : Value) : Value → Prop where
  | kept {shape : Shape} {stored : Value}
      (h : s.Stores t allowed (s.inside entries name) shape value stored) :
    Holds s t allowed entries name value stored
  | document (outcome : Except String Json) (hset : value.isEmpty = false)
      (h : allowed entries name value) : Holds s t allowed entries name value (.document outcome)

structure HoldsFields (s t : Schema) (allowed : List Plan.Entry → String → Value → Prop)
    (entries : List Plan.Entry) (r stored : Record) : Prop where
  type_eq : stored.type = r.type
  field : ∀ name, (r.get? name = none ∧ stored.get? name = none) ∨
    ∃ value other, r.get? name = some value ∧ stored.get? name = some other ∧
      s.Holds t allowed entries name value other

theorem holdsFields_refl (r : Record) : s.HoldsFields t allowed entries r r := by
  refine ⟨rfl, fun name => ?_⟩
  cases hget : r.get? name with
  | none => exact .inl ⟨rfl, rfl⟩
  | some value => exact .inr ⟨value, value, rfl, rfl, .kept (.same _ .any _)⟩

theorem lookup_stored {fields plain stored : List (String × Value)}
    (hnames : fields.map (·.1) = plain.map (·.1)) (h : List.Forall₂ (s.StoredAs t type) plain stored)
    (name : String) :
    (Keyed.lookup name fields = none ∧ Keyed.lookup name stored = none) ∨
      ∃ value inner other, ((name, value), (name, inner)) ∈ fields.zip plain ∧
        Keyed.lookup name fields = some value ∧ Keyed.lookup name stored = some other ∧
        s.StoredAs t type (name, inner) (name, other) := by
  -- `inner` is the value with its own fields stored, and `other` is what stands for it
  induction h generalizing fields with
  | nil =>
    rw [List.map_nil, List.map_eq_nil_iff] at hnames
    exact .inl ⟨by rw [hnames]; rfl, rfl⟩
  | @cons inner other plain stored hhead _ ih =>
    obtain ⟨innerName, inner⟩ := inner
    obtain ⟨otherName, other⟩ := other
    obtain rfl : otherName = innerName := hhead.name_eq
    cases fields with
    | nil => cases hnames
    | cons field fields =>
      obtain ⟨fieldName, value⟩ := field
      obtain ⟨rfl, hrest⟩ := List.cons.inj hnames
      by_cases hname : fieldName = name
      · subst hname
        exact .inr ⟨value, inner, other, List.mem_cons_self, if_pos rfl, if_pos rfl, hhead⟩
      · have hskip : ∀ (value : Value) (rest : List (String × Value)),
            Keyed.lookup name ((fieldName, value) :: rest) = Keyed.lookup name rest :=
          fun _ _ => if_neg hname
        change (Keyed.lookup name ((fieldName, value) :: fields) = none ∧
          Keyed.lookup name ((fieldName, other) :: stored) = none) ∨ _
        rw [hskip, hskip]
        rcases ih hrest with hnone | ⟨value', inner', other', hmem, hvalue, hother, hstored⟩
        · exact .inl hnone
        · exact .inr ⟨value', inner', other', List.mem_cons_of_mem _ hmem, hvalue, hother, hstored⟩

theorem holdsFields_of_stored {own : TypeId} {fields plain stored : List (String × Value)}
    (hnames : fields.map (·.1) = plain.map (·.1))
    (hplain : ∀ pair ∈ fields.zip plain, ∃ shape,
      s.Stores t allowed (s.inside entries pair.1.1) shape pair.1.2 pair.2.2)
    (hallowed : ∀ field ∈ fields, s.Merges t type field.1 → allowed entries field.1 field.2)
    (hstored : List.Forall₂ (s.StoredAs t type) plain stored) :
    s.HoldsFields t allowed entries ⟨own, fields⟩ ⟨own, stored⟩ := by
  refine ⟨rfl, fun name => ?_⟩
  rcases lookup_stored hnames hstored name with hnone | ⟨value, inner, other, hmem, hvalue, hother, has⟩
  · exact .inl hnone
  · refine .inr ⟨value, other, hvalue, hother, ?_⟩
    obtain ⟨shape, hinner⟩ := hplain _ hmem
    by_cases hmerges : s.Merges t type name
    · obtain ⟨outcome, heq⟩ := has.merged hmerges
      have hfield := hallowed _ (List.of_mem_zip hmem).1 hmerges
      change other = inner.ofSerialized outcome at heq
      cases hempty : inner.isEmpty with
      | true =>
        rw [Value.ofSerialized, if_pos hempty] at heq
        rw [heq]
        exact .kept hinner
      | false =>
        have hset : value.isEmpty = false := hinner.sameKind.isEmpty_eq.symm.trans hempty
        obtain ⟨document, hdocument, -⟩ := Value.exists_stored hempty outcome
        rw [heq, hdocument]
        exact .document document hset hfield
    · have heq : other = inner := has.kept hmerges
      rw [heq]
      exact .kept hinner

theorem Stores.holdsFields (h : s.Stores t allowed entries shape value stored)
    (hrecord : value.record? = some r) :
    ∃ other, stored.record? = some other ∧ s.HoldsFields t allowed entries r other := by
  induction h with
  | same => exact ⟨r, hrecord, holdsFields_refl r⟩
  | present => cases hrecord
  | any _ _ ih => exact ih hrecord
  | list => cases hrecord
  | map => cases hrecord
  | @struct entries shape type own fields plain stored _ hnames hplain hundeclared hallowed hstored =>
    obtain rfl := Option.some.inj hrecord
    refine ⟨_, rfl, holdsFields_of_stored hnames (fun pair hpair => ?_) hallowed hstored⟩
    by_cases hdeclared : pair.1.1 ∈ (s.fieldsOf type).map (·.name)
    · obtain ⟨d, hd, hname⟩ := List.mem_map.1 hdeclared
      exact ⟨d.shape, hplain pair hpair d hd hname⟩
    · rw [hundeclared pair hpair hdeclared]
      exact ⟨.any, .same _ _ _⟩

theorem Stores.record?_eq_none (h : s.Stores t allowed entries shape value stored)
    (hrecord : value.record? = none) : stored.record? = none := by
  have hsome := h.sameKind.record?_isSome_eq
  rw [hrecord] at hsome
  exact Option.not_isSome_iff_eq_none.1 (by rw [hsome]; decide)

structure Alternatives (s t : Schema) (allowed : List Plan.Entry → String → Value → Prop)
    (entries : List Plan.Entry) (item stored : Value) : Prop where
  error : ∀ e, item.normalize = .error e → ∃ other, stored.normalize = .error other
  record : ∀ r, item.normalize = .ok r →
    ∃ other, stored.normalize = .ok other ∧ s.HoldsFields t allowed entries r other

theorem normalize_eq_ok_iff : value.normalize = .ok r ↔ value.bare.record? = some r := by
  unfold Value.normalize
  cases value.bare <;> simp [Value.record?]

theorem normalize_eq_error_iff : (∃ e, value.normalize = .error e) ↔ value.bare.record? = none := by
  unfold Value.normalize
  cases value.bare <;> simp [Value.record?]

theorem Stores.alternative (h : s.Stores t allowed entries shape value stored) :
    s.Alternatives t allowed entries value stored := by
  obtain ⟨_, hbare⟩ := h.bare
  constructor
  · intro e he
    exact normalize_eq_error_iff.2 (hbare.record?_eq_none (normalize_eq_error_iff.1 ⟨e, he⟩))
  · intro r hr
    obtain ⟨other, hother, hfields⟩ := hbare.holdsFields (normalize_eq_ok_iff.1 hr)
    exact ⟨other, normalize_eq_ok_iff.2 hother, hfields⟩

theorem Stores.alternatives (h : s.Stores t allowed entries shape value stored) :
    List.Forall₂ (s.Alternatives t allowed entries) value.alternatives stored.alternatives := by
  have hsingle := h.alternative
  induction h with
  | same => exact List.forall₂_same.2 fun item _ => Stores.alternative (.same _ .any item)
  | present => exact .cons hsingle .nil
  | any _ _ ih => exact ih hsingle
  | list _ hlength hitems =>
    exact List.forall₂_iff_zip.2 ⟨hlength, fun hmem => (hitems _ hmem).alternative⟩
  | map => exact .cons hsingle .nil
  | struct => exact .cons hsingle .nil

/-- An entry asks for the same of a document in place of the value that it reads. -/
inductive Bears (s : Schema) (e : Plan.Entry) (value : Value) : Prop where
  | comparison {column : String} (htarget : e.target = .column column)
      (h : e.queryOp.isComparison = true)
  | nullness {column : String} (htarget : e.target = .column column) (hquery : e.queryOp = .null)
      (h : value.bool? = none)
  | failing {error : Error} (h : (Condition.part e value).run s.plan = .error error)

/-- Nothing is lost when a field is stored as a document: it is unset, or the entries that read it bear it and
those below it make nothing of what they find. -/
def Tolerates (s : Schema) (entries : List Plan.Entry) (name : String) (value : Value) : Prop :=
  value.isEmpty = true ∨
    (∀ e ∈ entries, e.path = [name] → s.Bears e value.bare) ∧
      ∀ below ∈ Plan.below name entries, ∀ r, value.bare.record? = some r →
        Condition.made s.plan r below = .ok none

inductive GivesStored (s t : Schema) (e : Plan.Entry) : Option Value → Option Value → Prop where
  | unset : GivesStored s t e none none
  | idle {value : Value} (h : (Condition.part e value).run s.plan = .ok none) :
    GivesStored s t e (some value) none
  | kept {entries : List Plan.Entry} {shape : Shape} {value stored : Value}
      (hread : ∀ type, e.target = .group type → ∀ below ∈ s.entriesFor type, below ∈ entries)
      (h : s.Stores t s.Tolerates entries shape value stored) :
    GivesStored s t e (some value) (some stored)
  | document {value : Value} (outcome : Except String Json) (h : s.Bears e value) :
    GivesStored s t e (some value) (some (.document outcome))

theorem Bears.congr {twin : Plan.Entry} (h : s.Bears e value) (halike : e.Alike twin) :
    s.Bears twin value := by
  have hop : twin.queryOp = e.queryOp := congrArg (·.getD .eq) halike.query.symm
  have htwin : twin.target = e.target := halike.target.symm
  cases h with
  | comparison htarget h => exact .comparison (htwin.trans htarget) (hop ▸ h)
  | nullness htarget hquery h => exact .nullness (htwin.trans htarget) (hop.trans hquery) h
  | failing h => exact .failing (Condition.part_congr halike value ▸ h)

theorem GivesStored.congr {twin : Plan.Entry} {given stored : Option Value}
    (h : s.GivesStored t e given stored) (halike : e.Alike twin) : s.GivesStored t twin given stored := by
  cases h with
  | unset => exact .unset
  | idle h => exact .idle (Condition.part_congr halike _ ▸ h)
  | kept hread hstores => exact .kept (fun type htarget => hread type (halike.target.trans htarget)) hstores
  | document outcome hbears => exact .document outcome (hbears.congr halike)

theorem HoldsFields.givesStored_last (h : s.HoldsFields t s.Tolerates entries r other) (he : e ∈ entries)
    (hpath : e.path = [name]) : s.GivesStored t e (r.given? [name]) (other.given? [name]) := by
  rcases h.field name with ⟨hnone, hother⟩ | ⟨value, stored, hvalue, hstored, hholds⟩
  · rw [Record.given?_eq_none_of_missing [] hnone, Record.given?_eq_none_of_missing [] hother]
    exact .unset
  · rw [Record.given?_last hvalue, Record.given?_last hstored]
    cases hholds with
    | kept hkept =>
      obtain ⟨shape, hbare⟩ := hkept.bare
      rw [hkept.sameKind.isEmpty_eq]
      split
      · exact .unset
      · exact .kept (fun type htarget below hbelow => mem_inside_of_group he hpath htarget hbelow) hbare
    | document outcome hset htolerates =>
      rw [hset]
      rcases htolerates with hempty | ⟨hbears, -⟩
      · rw [hset] at hempty
        cases hempty
      · exact .document outcome (hbears e he hpath)

theorem Tolerates.givesStored_none (h : s.Tolerates entries name value) (hset : value.isEmpty = false)
    (he : e ∈ entries) {path : List String} (hpath : e.path = name :: path) (hne : path ≠ [])
    (hget : r.get? name = some value) : s.GivesStored t e (r.given? (name :: path)) none := by
  rcases h with hempty | ⟨-, hidle⟩
  · rw [hset] at hempty
    cases hempty
  · cases hrecord : value.bare.record? with
    | none =>
      rw [Record.given?_of_no_record hne hget hrecord]
      exact .unset
    | some below =>
      have hmem : { e with path := path } ∈ Plan.below name entries :=
        Plan.mem_below_iff.2 ⟨e, he, hpath, hne, rfl⟩
      have hmade := hidle _ hmem below hrecord
      rw [Record.given?_of_record hne hget hrecord]
      cases hgiven : below.given? path with
      | none => exact .unset
      | some found =>
        rw [Condition.made_of_set hgiven] at hmade
        have hidle : s.GivesStored t { e with path := path } (some found) none := .idle hmade
        exact hidle.congr ⟨rfl, rfl, rfl⟩

theorem HoldsFields.givesStored (h : s.HoldsFields t s.Tolerates entries r other) (he : e ∈ entries) :
    s.GivesStored t e (r.given? e.path) (other.given? e.path) := by
  obtain ⟨path, hpath⟩ : ∃ path, e.path = path := ⟨_, rfl⟩
  rw [hpath]
  induction path generalizing entries e r other with
  | nil => exact .unset
  | cons name path ih =>
    by_cases hlast : path = []
    · subst hlast
      exact h.givesStored_last he hpath
    · rcases h.field name with ⟨hnone, hmissing⟩ | ⟨value, stored, hvalue, hstored, hholds⟩
      · rw [Record.given?_eq_none_of_missing _ hnone, Record.given?_eq_none_of_missing _ hmissing]
        exact .unset
      · cases hholds with
        | document outcome hset htolerates =>
          have hdocument : (Value.document outcome).bare.record? = none := rfl
          rw [Record.given?_of_no_record hlast hstored hdocument]
          exact htolerates.givesStored_none hset he hpath hlast hvalue
        | kept hkept =>
          obtain ⟨shape, hbare⟩ := hkept.bare
          cases hrecord : value.bare.record? with
          | none =>
            have hother := hbare.record?_eq_none hrecord
            rw [Record.given?_of_no_record hlast hvalue hrecord,
              Record.given?_of_no_record hlast hstored hother]
            exact .unset
          | some below =>
            obtain ⟨otherBelow, hother, hfields⟩ := hbare.holdsFields hrecord
            have hbelow : { e with path := path } ∈ Plan.below name entries :=
              Plan.mem_below_iff.2 ⟨e, he, hpath, hlast, rfl⟩
            have hgives := ih hfields (mem_inside_of_mem_below hbelow) rfl
            rw [Record.given?_of_record hlast hvalue hrecord, Record.given?_of_record hlast hstored hother]
            exact hgives.congr ⟨rfl, rfl, rfl⟩

end Schema

end Criteria
