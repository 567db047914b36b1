import Mathlib.Data.List.Forall2
import Criteria.Proofs.AlikeDeclarations
import Criteria.Proofs.Readings

set_option autoImplicit false

namespace Criteria

def Declaration.merging (d : Declaration) : Declaration :=
  { d with annotations := { d.annotations with update := some UpdateOp.mergeJson.token } }

/-- A field stays as it is, or it is declared without an update operator and merges from now on. -/
inductive Declaration.MayMerge : Declaration → Declaration → Prop where
  | same (d : Declaration) : MayMerge d d
  | merging {d : Declaration} (hdeclared : d.isDeclared = true) (hupdate : d.updateToken = "") :
    MayMerge d d.merging

namespace Declaration.MayMerge

variable {d merged : Declaration}

theorem name_eq (h : d.MayMerge merged) : merged.name = d.name := by
  cases h <;> rfl

theorem role?_eq (h : d.MayMerge merged) : merged.role? = d.role? := by
  cases h <;> rfl

theorem isDeclared_eq (h : d.MayMerge merged) : merged.isDeclared = d.isDeclared := by
  cases h with
  | same => rfl
  | merging hdeclared _ =>
    have hne : d.merging.updateToken ≠ "" := by
      change UpdateOp.mergeJson.token ≠ ""
      decide
    rw [hdeclared]
    simp [isDeclared, hne]

theorem fault?_eq (h : d.MayMerge merged) : merged.fault? = d.fault? := by
  cases h with
  | same => rfl
  | merging _ hupdate =>
    -- only the rule on unknown update tokens reads the token, and this one is known
    have hknown : d.merging.update? = some .mergeJson := rfl
    have hnone : ¬ (d.updateToken ≠ "" ∧ d.update? = none) := fun hfault => hfault.1 hupdate
    have hsome : ¬ (d.merging.updateToken ≠ "" ∧ d.merging.update? = none) := fun hfault => by
      rw [hknown] at hfault
      cases hfault.2
    simp only [fault?, rules, List.findSome?_cons, if_neg hnone, if_neg hsome]
    rfl

theorem queried_entry_eq (h : d.MayMerge merged) (path : List String) (target : Target) :
    (merged.entry path target).queried = (d.entry path target).queried := by
  cases h <;> rfl

theorem alike (h : d.MayMerge merged) : d.Alike Plan.Entry.queried merged :=
  ⟨h.name_eq, h.isDeclared_eq, h.fault?_eq, h.role?_eq, h.queried_entry_eq⟩

end Declaration.MayMerge

namespace Schema

structure Merging (s t : Schema) : Prop where
  nameOf_eq : ∀ type, t.nameOf type = s.nameOf type
  fieldsOf : ∀ type, List.Forall₂ Declaration.MayMerge (s.fieldsOf type) (t.fieldsOf type)

variable {s t : Schema}

theorem Merging.alike (h : s.Merging t) : s.Alike Plan.Entry.queried t :=
  ⟨h.nameOf_eq, fun type => (h.fieldsOf type).imp fun _ _ => Declaration.MayMerge.alike⟩

/-- Both plans exist or fail alike, with the same entries up to their update operators. -/
theorem Merging.plan_eq (h : s.Merging t) (type : TypeId) :
    (t.plan type).map (fun plan => plan.entries.map Plan.Entry.queried) =
      (s.plan type).map fun plan => plan.entries.map Plan.Entry.queried :=
  h.alike.plan_eq (fun _ => rfl) type

end Schema

end Criteria
