import Mathlib.Data.Fintype.EquivFin
import Mathlib.Data.Finset.Dedup
import Criteria.Proofs.PlanEntries
import Criteria.Proofs.Readings

set_option autoImplicit false

namespace Criteria.Schema

/-- `t` is `s` with one more type, which declares `fields`. -/
structure Adds (s t : Schema) (type : TypeId) (fields : List Declaration) : Prop where
  added : t.fieldsOf type = fields
  fieldsOf_eq : ∀ other, other ≠ type → t.fieldsOf other = s.fieldsOf other
  nameOf_eq : ∀ other, other ≠ type → t.nameOf other = s.nameOf other
  not_embedded : ∀ owner, ∀ d ∈ s.fieldsOf owner, d.shape.embedded? ≠ some type
  not_group : ∀ owner, ∀ d ∈ s.fieldsOf owner, d.shape.alternatives? ≠ some type

def padded (s : Schema) (size : Nat) : List StructType :=
  s.types ++ List.replicate (size - s.types.length) ⟨"", []⟩

def adding (s : Schema) (type : TypeId) (fields : List Declaration) : Schema :=
  ⟨s.padded type ++ [⟨"", fields⟩]⟩

variable {s t : Schema} {type owner : TypeId} {fields flat : List Declaration} {d : Declaration}

theorem padded_length (h : s.size ≤ type) : (s.padded type).length = type := by
  have hsize : s.types.length ≤ type := h
  rw [padded, List.length_append, List.length_replicate]
  omega

theorem padded_get (hlt : owner < type) :
    (s.padded type)[owner]? = s.struct? owner ∨
      ((s.padded type)[owner]? = some ⟨"", []⟩ ∧ s.struct? owner = none) := by
  unfold padded struct?
  by_cases hold : owner < s.types.length
  · exact .inl (List.getElem?_append_left hold)
  · have hnone : s.types[owner]? = none := List.getElem?_eq_none (Nat.not_lt.1 hold)
    refine .inr ⟨?_, hnone⟩
    rw [List.getElem?_append_right (Nat.not_lt.1 hold), List.getElem?_replicate, if_pos]
    exact Nat.sub_lt_sub_right (Nat.not_lt.1 hold) hlt

theorem struct?_adding_self (h : s.size ≤ type) :
    (s.adding type fields).struct? type = some ⟨"", fields⟩ := by
  unfold adding struct?
  rw [List.getElem?_append_right (Nat.le_of_eq (padded_length h)), padded_length h, Nat.sub_self]
  rfl

theorem struct?_adding_of_ne (h : s.size ≤ type) (hne : owner ≠ type) :
    (s.adding type fields).struct? owner = s.struct? owner ∨
      ((s.adding type fields).struct? owner = some ⟨"", []⟩ ∧ s.struct? owner = none) := by
  have hlength := padded_length h
  rcases Nat.lt_or_gt_of_ne hne with hlt | hgt
  · have hinside : (s.adding type fields).struct? owner = (s.padded type)[owner]? :=
      List.getElem?_append_left (by omega)
    rw [hinside]
    exact padded_get hlt
  · have hbeyond : (s.adding type fields).struct? owner = none := by
      refine List.getElem?_eq_none ?_
      rw [adding, List.length_append, hlength, List.length_singleton]
      omega
    have hnone : s.struct? owner = none := List.getElem?_eq_none (Nat.le_of_lt (Nat.lt_of_le_of_lt h hgt))
    exact .inl (hbeyond.trans hnone.symm)

theorem mem_fieldsOf (h : d ∈ s.fieldsOf owner) : ∃ struct ∈ s.types, d ∈ struct.fields := by
  unfold fieldsOf struct? at h
  cases hstruct : s.types[owner]? with
  | none => simp [hstruct] at h
  | some struct =>
    rw [hstruct] at h
    exact ⟨struct, List.mem_of_getElem? hstruct, h⟩

def referenced (s : Schema) : List TypeId :=
  s.types.flatMap fun struct =>
    struct.fields.filterMap (·.shape.embedded?) ++ struct.fields.filterMap (·.shape.alternatives?)

theorem adds_adding (hsize : s.size ≤ type) (hunused : type ∉ s.referenced)
    (fields : List Declaration) : s.Adds (s.adding type fields) type fields := by
  have hsame : ∀ owner, owner ≠ type →
      (s.adding type fields).struct? owner = s.struct? owner ∨
        ((s.adding type fields).struct? owner = some ⟨"", []⟩ ∧ s.struct? owner = none) :=
    fun owner hne => struct?_adding_of_ne hsize hne
  refine ⟨?added, ?fieldsOf, ?nameOf, ?embedded, ?group⟩
  case added =>
    rw [fieldsOf, struct?_adding_self hsize]
    rfl
  case fieldsOf =>
    intro owner hne
    unfold fieldsOf
    rcases hsame owner hne with hstruct | ⟨hempty, hnone⟩
    · rw [hstruct]
    · rw [hempty, hnone]
      rfl
  case nameOf =>
    intro owner hne
    unfold nameOf
    rcases hsame owner hne with hstruct | ⟨hempty, hnone⟩
    · rw [hstruct]
    · rw [hempty, hnone]
      rfl
  case embedded =>
    intro owner d hd hshape
    obtain ⟨struct, hstruct, hd⟩ := mem_fieldsOf hd
    refine hunused (List.mem_flatMap.2 ⟨struct, hstruct, List.mem_append_left _ ?_⟩)
    exact List.mem_filterMap.2 ⟨d, hd, hshape⟩
  case group =>
    intro owner d hd hshape
    obtain ⟨struct, hstruct, hd⟩ := mem_fieldsOf hd
    refine hunused (List.mem_flatMap.2 ⟨struct, hstruct, List.mem_append_right _ ?_⟩)
    exact List.mem_filterMap.2 ⟨d, hd, hshape⟩

theorem exists_adds (s : Schema) (fields : List Declaration) : ∃ t type, s.Adds t type fields := by
  -- a number that names no type and that no field leads to
  obtain ⟨type, htype⟩ :=
    Infinite.exists_notMem_finset (s.referenced.toFinset ∪ Finset.range s.size)
  rw [Finset.mem_union, not_or, List.mem_toFinset, Finset.mem_range, Nat.not_lt] at htype
  exact ⟨s.adding type fields, type, adds_adding htype.2 htype.1 fields⟩

theorem Adds.entriesOf_eq (h : s.Adds t type flat) (chain : List TypeId) (path : List String)
    (fields : List Declaration) (done : List Plan.Entry)
    (hfields : ∀ d ∈ fields, d.shape.embedded? ≠ some type) :
    t.entriesOf chain path fields done = s.entriesOf chain path fields done := by
  -- the new type is never entered
  have hne : ∀ {d : Declaration} {inner : TypeId}, d.shape.embedded? ≠ some type →
      d.role? = some (.embeds inner) → inner ≠ type := by
    intro d inner hd hrole heq
    have hembeds := Declaration.embeds_iff_role?.2 hrole
    exact hd (heq ▸ Shape.embedded?_eq_some_iff.2 hembeds.2)
  fun_induction s.entriesOf chain path fields done with
  | case1 => rw [entriesOf]
  | case2 chain path d rest done hdeclared ih =>
    rw [entriesOf_undeclared (by simpa using hdeclared)]
    exact ih (List.forall_mem_cons.1 hfields).2
  | case3 chain path d rest done here fail hdeclared fault hfault =>
    exact entriesOf_fault (by simpa using hdeclared) hfault done
  | case4 chain path d rest done here fail hdeclared hrole hfault =>
    exact absurd hrole (Declaration.role?_ne_none hfault)
  | case5 chain path d rest done here hdeclared target hrole hfault ih =>
    rw [entriesOf_entry hfault hrole]
    exact ih (List.forall_mem_cons.1 hfields).2
  | case6 chain path d rest done here fail hdeclared inner hrole hfault hchain =>
    have hinner := hne (List.forall_mem_cons.1 hfields).1 hrole
    rw [entriesOf_recursive hfault hrole hchain, h.nameOf_eq inner hinner]
  | case7 chain path d rest done here hdeclared inner hrole hfault hchain e hfound ihinner =>
    have hinner := hne (List.forall_mem_cons.1 hfields).1 hrole
    have hwalk := (ihinner (h.not_embedded inner)).trans hfound
    rw [entriesOf_embeds hfault hrole hchain, h.fieldsOf_eq inner hinner]
    exact congrArg (Except.bind · _) hwalk
  | case8 chain path d rest done here hdeclared inner hrole hfault hchain found hfound ihinner ih =>
    have hinner := hne (List.forall_mem_cons.1 hfields).1 hrole
    have hwalk := (ihinner (h.not_embedded inner)).trans hfound
    rw [entriesOf_embeds hfault hrole hchain, h.fieldsOf_eq inner hinner]
    exact (congrArg (Except.bind · _) hwalk).trans (ih (List.forall_mem_cons.1 hfields).2)

theorem Adds.plan_eq (h : s.Adds t type flat) (hne : owner ≠ type) : t.plan owner = s.plan owner := by
  rw [plan, plan, h.fieldsOf_eq owner hne, h.entriesOf_eq [owner] [] _ _ (h.not_embedded owner)]

theorem Adds.not_group_of_plan (h : s.Adds t type flat) {plan : Plan} (hplan : s.plan owner = .ok plan) :
    ∀ e ∈ plan.entries, ∀ below, e.target = .group below → below ≠ type := by
  intro e he below htarget heq
  obtain ⟨address, site, target, hsite, -, hrole, rfl⟩ := makes_of_mem_plan hplan e he
  obtain ⟨declaring, hdeclaring⟩ := hsite.declared rfl
  obtain rfl : target = .group below := htarget
  obtain ⟨-, -, hshape⟩ := Declaration.role?_eq_group_iff.1 hrole
  exact h.not_group declaring _ hdeclaring (heq ▸ hshape)

/-- Whatever leads to the types of `s` only is built as before. -/
theorem Adds.run_parts_eq (h : s.Adds t type flat) (r : Record) {entries : List Plan.Entry}
    (hentries : ∀ e ∈ entries, ∀ below, e.target = .group below → below ≠ type) :
    (Condition.parts r entries).run t.plan = (Condition.parts r entries).run s.plan := by
  refine (Condition.run_parts_congr_answer (· ≠ type) ?_ ?_).1 r entries hentries entries rfl
  · intro below hne
    rw [h.plan_eq hne]
  · intro below plan _ hplan
    exact h.not_group_of_plan hplan

end Criteria.Schema
