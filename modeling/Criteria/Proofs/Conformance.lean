import Criteria.Assignment.OfRecord
import Criteria.Proofs.ConditionRun
import Criteria.Proofs.PlanEntries

set_option autoImplicit false

namespace Criteria

/-- A value is one of those that a shape declares. A record has the declared fields in their
order. -/
inductive Schema.Conforms (s : Schema) : Shape → Value → Prop where
  | bool (b : Bool) : Conforms s .bool (.bool b)
  | int (n : Int64) : Conforms s .int (.int n)
  | uint (n : UInt64) : Conforms s .uint (.uint n)
  | float (x : Float) : Conforms s .float (.float x)
  | text (t : String) : Conforms s .text (.text t)
  | any (value : Value) : Conforms s .any value
  | absent (inner : Shape) : Conforms s (.optional inner) .null
  | present {inner : Shape} {value : Value} (h : Conforms s inner value) :
    Conforms s (.optional inner) (.present value)
  | list {element : Shape} {items : List Value} (h : ∀ item ∈ items, Conforms s element item) :
    Conforms s (.list element) (.list items)
  | map {element : Shape} {entries : List (String × Value)}
      (h : ∀ entry ∈ entries, Conforms s element entry.2) :
    Conforms s (.map element) (.map entries)
  | struct {type : TypeId} {fields : List (String × Value)}
      (hnames : fields.map (·.1) = (s.fieldsOf type).map (·.name))
      (hvalues : ∀ pair ∈ (s.fieldsOf type).zip fields, Conforms s pair.1.shape pair.2.2) :
    Conforms s (.struct type) (.record type fields)

def Schema.DistinctNames (s : Schema) : Prop :=
  ∀ type, ((s.fieldsOf type).map (·.name)).Nodup

theorem Keyed.exists_of_lookup {α : Type} {key : String} {entries : List (String × α)} {a : α}
    (h : Keyed.lookup key entries = some a) : ∃ i : Nat, entries[i]? = some (key, a) := by
  induction entries with
  | nil => cases h
  | cons entry rest ih =>
    obtain ⟨k, b⟩ := entry
    rw [Keyed.lookup] at h
    split at h
    · rename_i hkey
      obtain rfl := Option.some.inj h
      exact ⟨0, by simp [hkey]⟩
    · obtain ⟨i, hi⟩ := ih h
      exact ⟨i + 1, by simpa using hi⟩

theorem Value.record?_eq_some_iff {value : Value} {r : Record} :
    value.record? = some r ↔ value = .record r.type r.fields := by
  cases value with
  | record type fields =>
    simp only [record?, Option.some.injEq, record.injEq]
    constructor
    · rintro rfl
      exact ⟨rfl, rfl⟩
    · rintro ⟨rfl, rfl⟩
      rfl
  | _ => simp [record?]

theorem Value.normalize_of_bare {value : Value} {type : TypeId} {fields : List (String × Value)}
    (h : value.bare = .record type fields) : value.normalize = .ok ⟨type, fields⟩ := by
  rw [normalize, h]

theorem Value.isEmpty_of_bare_eq_record {value : Value} {type : TypeId}
    {fields : List (String × Value)} (h : value.bare = .record type fields) :
    value.isEmpty = false := by
  cases value <;> simp_all [bare, isEmpty]

theorem Record.path?_cons {step : String} {rest : List String} {r : Record} {value : Value}
    (hrest : rest ≠ []) (h : Record.path? (step :: rest) r = some value) :
    ∃ outer inner, r.get? step = some outer ∧ outer.bare = .record inner.type inner.fields ∧
      Record.path? rest inner = some value := by
  cases rest with
  | nil => exact absurd rfl hrest
  | cons next rest =>
    rw [Record.path?] at h
    split at h
    · rename_i inner hinner
      obtain ⟨outer, houter, hrecord⟩ := Option.bind_eq_some_iff.1 hinner
      exact ⟨outer, inner, houter, Value.record?_eq_some_iff.1 hrecord, h⟩
    · cases h

theorem Record.given?_eq_some {path : List String} {r : Record} {value : Value}
    (h : r.given? path = some value) :
    ∃ found, Record.path? path r = some found ∧ found.isEmpty = false ∧ value = found.bare := by
  unfold Record.given? at h
  cases hpath : Record.path? path r with
  | none => simp [hpath] at h
  | some found =>
    by_cases hempty : found.isEmpty = true
    · simp [hpath, hempty] at h
    · simp [hpath, hempty] at h
      exact ⟨found, rfl, Bool.eq_false_iff.2 hempty, h.symm⟩

/-- A field is found by its name, since no other has it. -/
theorem Schema.mem_zip_of_lookup {s : Schema} {type : TypeId} {fields : List (String × Value)}
    {i : Nat} {d : Declaration} {value : Value} (hnames : s.DistinctNames)
    (hfields : fields.map (·.1) = (s.fieldsOf type).map (·.name))
    (hd : (s.fieldsOf type)[i]? = some d) (hget : Keyed.lookup d.name fields = some value) :
    (d, d.name, value) ∈ (s.fieldsOf type).zip fields := by
  obtain ⟨j, hj⟩ := Keyed.exists_of_lookup hget
  have hlt : i < ((s.fieldsOf type).map (·.name)).length := by
    obtain ⟨hlt, -⟩ := List.getElem?_eq_some_iff.1 hd
    simpa using hlt
  have hname : ((s.fieldsOf type).map (·.name))[j]? = some d.name := by
    rw [← hfields, List.getElem?_map, hj]
    rfl
  have hij : i = j := by
    refine (List.getElem?_inj hlt (hnames type)).1 ?_
    rw [hname, List.getElem?_map, hd]
    rfl
  subst hij
  exact List.mem_of_getElem? (List.getElem?_zip_eq_some.2 ⟨hd, hj⟩)

namespace Schema.Conforms

variable {s : Schema} {type : TypeId} {shape : Shape} {value : Value} {r : Record}

theorem eq_record (h : s.Conforms (.struct type) value) : ∃ fields, value = .record type fields := by
  cases h
  exact ⟨_, rfl⟩

/-- A field that is set loses its presence and its optional layer together. -/
theorem bare (h : s.Conforms shape value) (hset : value.isEmpty = false) :
    s.Conforms shape.required value.bare := by
  cases h with
  | absent => cases hset
  | present h => exact h
  | bool b => exact .bool b
  | int n => exact .int n
  | uint n => exact .uint n
  | float x => exact .float x
  | text t => exact .text t
  | any => exact .any _
  | list h => exact .list h
  | map h => exact .map h
  | struct hnames hvalues => exact .struct hnames hvalues

theorem get? (hnames : s.DistinctNames) {i : Nat} {d : Declaration}
    (hd : (s.fieldsOf type)[i]? = some d) (h : s.Conforms (.struct type) (.record r.type r.fields))
    (hget : r.get? d.name = some value) : s.Conforms d.shape value := by
  obtain ⟨rtype, fields⟩ := r
  cases h with
  | struct hfields hvalues => exact hvalues _ (mem_zip_of_lookup hnames hfields hd hget)

/-- On the way every embedded struct is entered through its record. -/
theorem path? (hnames : s.DistinctNames) {fields : List Declaration} {address : Address}
    {site : Site} (hsite : s.Reaches fields address site) (hfields : fields = s.fieldsOf type)
    (h : s.Conforms (.struct type) (.record r.type r.fields))
    (hpath : Record.path? site.path r = some value) : s.Conforms site.declaration.shape value := by
  induction hsite generalizing type r with
  | here hd =>
    subst hfields
    exact h.get? hnames hd hpath
  | @inside fields i d inner address site hd hembeds hsite ih =>
    subst hfields
    obtain ⟨outer, record, houter, hbare, hrest⟩ := Record.path?_cons hsite.path_ne_nil hpath
    have houterConforms := (h.get? hnames hd houter).bare (Value.isEmpty_of_bare_eq_record hbare)
    rw [hembeds.2, hbare] at houterConforms
    exact ih rfl houterConforms hrest

theorem alternatives {d : Declaration} (hrole : d.role? = some (.entry (.group type)))
    (h : s.Conforms d.shape.required value) :
    ∀ item ∈ value.alternatives, s.Conforms (.struct type) item := by
  obtain ⟨-, -, hshape⟩ := Declaration.role?_eq_group_iff.1 hrole
  rcases Shape.alternatives?_eq_some_iff.1 hshape with hstruct | hlist
  · rw [hstruct] at h
    obtain ⟨fields, rfl⟩ := h.eq_record
    intro item hitem
    obtain rfl := List.mem_singleton.1 hitem
    exact h
  · rw [hlist] at h
    cases h with
    | list h => exact h

end Schema.Conforms

namespace Condition

variable {s : Schema} {d : Declaration} {value : Value}

theorem list_of_membership (hfault : d.fault? = none)
    (hquery : d.queryToken = "in" ∨ d.queryToken = "not in")
    (hvalue : s.Conforms d.shape.required value) : ∃ items, value = .list items := by
  by_cases hshape : ∃ element, d.shape.required = .list element
  · obtain ⟨element, helement⟩ := hshape
    rw [helement] at hvalue
    cases hvalue
    exact ⟨_, rfl⟩
  · have hviolates : d.Violates _ :=
      .membershipNotList hquery fun element helement => hshape ⟨element, helement⟩
    exact absurd hviolates (Declaration.fault?_eq_none_iff.1 hfault _)

theorem text_of_pattern (hfault : d.fault? = none) (hquery : d.queryToken = "like")
    (hany : d.shape.required ≠ .any) (hvalue : s.Conforms d.shape.required value) :
    ∃ pattern, value = .text pattern := by
  by_cases hshape : d.shape.required = .text
  · rw [hshape] at hvalue
    cases hvalue
    exact ⟨_, rfl⟩
  · have hviolates : d.Violates _ := .likeNotText hquery hshape hany
    exact absurd hviolates (Declaration.fault?_eq_none_iff.1 hfault _)

/-- The rules leave no column whose operator refuses a conforming operand, except a pattern on a value
of any kind. -/
theorem leaf_ok (path : List String) {column : String} (hfault : d.fault? = none)
    (hrole : d.role? = some (.entry (.column column)))
    (hlike : d.queryToken = "like" → d.shape.required ≠ .any)
    (hvalue : s.Conforms d.shape.required value) :
    ∃ made, leaf (d.entry path (.column column)) column value = .ok made := by
  rw [leaf, Declaration.queryOp_entry]
  cases hquery : d.query? with
  | none => exact ⟨_, rfl⟩
  | some op =>
    have htoken := Declaration.query?_eq_some_iff.1 hquery
    cases op with
    | among =>
      obtain ⟨items, rfl⟩ := list_of_membership hfault (.inl htoken.symm) hvalue
      exact ⟨_, rfl⟩
    | notAmong =>
      obtain ⟨items, rfl⟩ := list_of_membership hfault (.inr htoken.symm) hvalue
      exact ⟨_, rfl⟩
    | like =>
      obtain ⟨pattern, rfl⟩ := text_of_pattern hfault htoken.symm (hlike htoken.symm) hvalue
      exact ⟨_, rfl⟩
    | or =>
      obtain ⟨-, hor, -⟩ := Declaration.role?_eq_column_iff.1 hrole
      exact absurd htoken.symm hor
    | _ => exact ⟨_, rfl⟩

end Condition

theorem Assignments.assignment_ok {d : Declaration} (path : List String) (target : Target)
    (hmerge : d.updateToken ≠ "merge_json") (value : Value) (dialect : Dialect) (column : String) :
    ∃ made, assignment dialect (d.entry path target) column value = .ok made := by
  rw [assignment, Declaration.update_entry]
  cases hupdate : d.update? with
  | none => exact ⟨_, rfl⟩
  | some op =>
    have htoken := Declaration.update?_eq_some_iff.1 hupdate
    cases op with
    | mergeJson => exact absurd htoken.symm hmerge
    | _ => exact ⟨_, rfl⟩

namespace Schema

variable {s : Schema} {r : Record}

/-- Names are distinct within each type, nothing is merged as JSON, and no pattern is declared on a
value of any kind. -/
structure Plain (s : Schema) : Prop where
  names : s.DistinctNames
  noMerge : ∀ type, ∀ d ∈ s.fieldsOf type, d.updateToken ≠ "merge_json"
  likeNotAny : ∀ type, ∀ d ∈ s.fieldsOf type, d.queryToken = "like" → d.shape.required ≠ .any

structure Takes (s : Schema) (e : Plan.Entry) (value : Value) : Prop where
  leaf : ∀ column, e.target = .column column → ∃ made, Condition.leaf e column value = .ok made
  assignment : ∀ dialect column, ∃ made, Assignments.assignment dialect e column value = .ok made
  alternatives : ∀ type, e.target = .group type →
    ∀ item ∈ value.alternatives, s.Conforms (.struct type) item

theorem Plain.takes (hs : s.Plain) {type : TypeId} {plan : Plan} (hplan : s.plan type = .ok plan)
    (h : s.Conforms (.struct type) (.record r.type r.fields)) :
    ∀ e ∈ plan.entries, ∀ value, r.given? e.path = some value → s.Takes e value := by
  intro e he value hset
  obtain ⟨address, site, target, hsite, hfault, hrole, rfl⟩ := makes_of_mem_plan hplan e he
  obtain ⟨owner, howner⟩ := hsite.declared rfl
  obtain ⟨found, hpath, hnonempty, rfl⟩ := Record.given?_eq_some hset
  have hfound := (h.path? hs.names hsite rfl hpath).bare hnonempty
  refine ⟨fun column htarget => ?_, fun dialect column => ?_, fun inner htarget => ?_⟩
  · obtain rfl : target = .column column := htarget
    exact Condition.leaf_ok _ hfault hrole (hs.likeNotAny owner _ howner) hfound
  · exact Assignments.assignment_ok _ _ (hs.noMerge owner _ howner) _ dialect column
  · obtain rfl : target = .group inner := htarget
    exact Conforms.alternatives hrole hfound

end Schema

end Criteria
