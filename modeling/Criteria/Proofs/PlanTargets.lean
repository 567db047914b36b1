import Mathlib.Data.List.Nodup
import Criteria.Proofs.PlanWalk

set_option autoImplicit false

namespace Criteria

namespace Plan

variable {e : Entry} {entries embedded : List Entry}

theorem nodup_names_redeclare (e : Entry) (h : (entries.map (·.name)).Nodup) :
    ((redeclare e entries).map (·.name)).Nodup := by
  unfold redeclare
  rw [List.map_append, List.nodup_append]
  refine ⟨h.sublist (List.filter_sublist.map _), List.nodup_singleton _, ?_⟩
  intro name hold other hnew
  obtain ⟨old, hmem, rfl⟩ := List.mem_map.1 hold
  obtain rfl := List.mem_singleton.1 hnew
  exact of_decide_eq_true (List.mem_filter.1 hmem).2

theorem nodup_names_addMissing (e : Entry) (h : (entries.map (·.name)).Nodup) :
    ((addMissing entries e).map (·.name)).Nodup := by
  unfold addMissing
  split
  · exact h
  · rename_i hmissing
    rw [List.map_append, List.nodup_append]
    refine ⟨h, List.nodup_singleton _, ?_⟩
    intro name hold other hnew
    obtain ⟨old, hmem, rfl⟩ := List.mem_map.1 hold
    obtain rfl := List.mem_singleton.1 hnew
    intro hname
    exact hmissing (List.any_eq_true.2 ⟨old, hmem, decide_eq_true hname⟩)

theorem nodup_names_fill (embedded : List Entry) (h : (entries.map (·.name)).Nodup) :
    ((fill embedded entries).map (·.name)).Nodup := by
  induction embedded generalizing entries with
  | nil => exact h
  | cons e embedded ih => exact ih (nodup_names_addMissing e h)

theorem find?_name {p : Plan} (h : (p.entries.map (·.name)).Nodup) (he : e ∈ p.entries) :
    p.find? e.name = some e := by
  cases hfind : p.find? e.name with
  | none => exact absurd (List.find?_eq_none.1 hfind e he) (by simp)
  | some found =>
    have hname : found.name = e.name := by simpa using List.find?_some hfind
    exact congrArg some (List.inj_on_of_nodup_map h (List.mem_of_find?_eq_some hfind) he hname)

/-- An entry keeps what was declared for its field, and its target follows from that. -/
structure Entry.DeclaredBy (e : Entry) (d : Declaration) : Prop where
  name : e.name = d.name
  query : e.query = d.query?
  update : e.update = d.update?
  written : e.written = d.annotations.listing
  column : e.column? = d.column?
  group : e.group? = if e.query = some .or then d.shape.alternatives? else none
  exclusive : e.column?.isSome = !e.group?.isSome
  columnName : ∀ column, e.column? = some column → column ≠ "" ∧ column ≠ "-"
  groupQuery : e.group?.isSome = true ↔ e.query = some .or
  groupStruct : ∀ type, e.group? = some type →
    d.shape.required = .struct type ∨ d.shape.required = .list (.struct type)

theorem Entry.column?_eq_some_iff {column : String} :
    e.column? = some column ↔ e.target = .column column := by
  unfold Entry.column?
  cases e.target <;> simp

theorem Entry.group?_eq_some_iff {type : TypeId} :
    e.group? = some type ↔ e.target = .group type := by
  unfold Entry.group?
  cases e.target <;> simp

end Plan

namespace Declaration

variable {d : Declaration}

theorem query?_eq_or_iff : d.query? = some .or ↔ d.queryToken = "or" := by
  rw [query?_eq_some_iff]
  exact eq_comm

theorem column?_proper {column : String} (h : d.column? = some column) :
    column ≠ "" ∧ column ≠ "-" := by
  have hproper := (Option.filter_eq_some_iff.1 h).2
  simpa using hproper

theorem column?_eq_none_of_or (hfault : d.fault? = none) (hor : d.queryToken = "or") :
    d.column? = none := by
  by_contra hcolumn
  exact fault?_eq_none_iff.1 hfault _ (.orWithColumn hor hcolumn)

/-- A declaration without a fault that has a role of its own makes an entry that fits it. -/
theorem declaredBy_entry {target : Target} (path : List String) (hfault : d.fault? = none)
    (hrole : d.role? = some (.entry target)) : (d.entry path target).DeclaredBy d := by
  cases target with
  | column column =>
    obtain ⟨-, hor, hcolumn⟩ := role?_eq_column_iff.1 hrole
    have hquery : d.query? ≠ some .or := mt query?_eq_or_iff.1 hor
    refine ⟨rfl, rfl, rfl, rfl, hcolumn.symm, (if_neg hquery).symm, rfl, ?_, ?_, ?_⟩
    · intro name hname
      obtain rfl := Option.some.inj hname
      exact column?_proper hcolumn
    · exact ⟨fun hgroup => Bool.noConfusion hgroup, fun hor => absurd hor hquery⟩
    · rintro type ⟨⟩
  | group type =>
    obtain ⟨-, hor, hstruct⟩ := role?_eq_group_iff.1 hrole
    have hquery : d.query? = some .or := query?_eq_or_iff.2 hor
    have hcolumn : d.column? = none := column?_eq_none_of_or hfault hor
    refine ⟨rfl, rfl, rfl, rfl, hcolumn.symm, ((if_pos hquery).trans hstruct).symm, rfl, ?_, ?_, ?_⟩
    · rintro name ⟨⟩
    · exact ⟨fun _ => hquery, fun _ => rfl⟩
    · intro other hother
      obtain rfl := Option.some.inj hother
      exact Shape.alternatives?_eq_some_iff.1 hstruct

end Declaration

namespace Schema

variable {s : Schema} {chain : List TypeId} {path : List String} {fields : List Declaration}
  {done entries : List Plan.Entry} {address : Address} {site : Site} {type : TypeId} {plan : Plan}

theorem WalksTo.nodup_names (h : s.WalksTo chain path fields done entries)
    (hdone : (done.map (·.name)).Nodup) : (entries.map (·.name)).Nodup := by
  induction h with
  | nil => exact hdone
  | skip _ _ ih => exact ih hdone
  | entry _ _ _ _ ih => exact ih (Plan.nodup_names_redeclare _ hdone)
  | embeds _ _ _ _ _ _ ih => exact ih (Plan.nodup_names_fill _ hdone)

theorem nodup_names_plan (h : s.plan type = .ok plan) : (plan.entries.map (·.name)).Nodup :=
  (plan_eq_ok_iff.1 h).2.nodup_names List.nodup_nil

theorem Reaches.getLast?_path (h : s.Reaches fields address site) :
    site.path.getLast? = some site.declaration.name := by
  induction h with
  | here => rfl
  | inside _ _ hsite ih => rw [List.getLast?_cons, ih]; rfl

/-- An entry of a plan with the place of the declaration that made it. -/
structure EntryAt (s : Schema) (plan : Plan) (e : Plan.Entry) (address : Address) (site : Site) :
    Prop where
  reached : s.Reaches (s.fieldsOf plan.type) address site
  path : e.path = site.path
  declared : e.DeclaredBy site.declaration

theorem EntryAt.getLast?_path {e : Plan.Entry} (h : s.EntryAt plan e address site) :
    e.path.getLast? = some e.name := by
  rw [h.path, h.declared.name]
  exact h.reached.getLast?_path

theorem exists_entryAt (h : s.plan type = .ok plan) {e : Plan.Entry} (he : e ∈ plan.entries) :
    ∃ address site, s.EntryAt plan e address site := by
  obtain ⟨address, site, target, hsite, hfault, hrole, rfl⟩ := makes_of_mem_plan h e he
  obtain rfl := (plan_eq_ok_iff.1 h).1
  exact ⟨address, site, hsite, List.nil_append _, Declaration.declaredBy_entry _ hfault hrole⟩

end Schema

end Criteria
