import Mathlib.Data.List.Forall2
import Criteria.Proofs.PlanWalk

set_option autoImplicit false

namespace Criteria

/-- Planning sees one field in both, up to what `f` drops from entries. -/
structure Declaration.Alike (f : Plan.Entry → Plan.Entry) (d twin : Declaration) : Prop where
  name : twin.name = d.name
  isDeclared : twin.isDeclared = d.isDeclared
  fault? : twin.fault? = d.fault?
  role? : twin.role? = d.role?
  entry : ∀ path target, f (twin.entry path target) = f (d.entry path target)

namespace Plan

variable {f : Entry → Entry}

theorem redeclare_congr_map (hname : ∀ e, (f e).name = e.name) {e twin : Entry} {done twins : List Entry}
    (he : f twin = f e) (hdone : twins.map f = done.map f) :
    (redeclare twin twins).map f = (redeclare e done).map f := by
  rw [← redeclare_map hname, ← redeclare_map hname, he, hdone]

theorem fill_congr_map (hname : ∀ e, (f e).name = e.name) {found twinFound done twins : List Entry}
    (hfound : twinFound.map f = found.map f) (hdone : twins.map f = done.map f) :
    (fill twinFound twins).map f = (fill found done).map f := by
  rw [← fill_map hname, ← fill_map hname, hfound, hdone]

end Plan

namespace Schema

structure Alike (f : Plan.Entry → Plan.Entry) (s t : Schema) : Prop where
  nameOf_eq : ∀ type, t.nameOf type = s.nameOf type
  fieldsOf : ∀ type, List.Forall₂ (Declaration.Alike f) (s.fieldsOf type) (t.fieldsOf type)

variable {f : Plan.Entry → Plan.Entry} {s t : Schema}

/-- The walks keep step: every declaration is skipped, refused, added or entered in both. -/
theorem Alike.entriesOf_eq (h : s.Alike f t) (hname : ∀ e, (f e).name = e.name) (chain : List TypeId)
    (path : List String) (fields : List Declaration) (done : List Plan.Entry) :
    ∀ twins twinDone, List.Forall₂ (Declaration.Alike f) fields twins → twinDone.map f = done.map f →
      (t.entriesOf chain path twins twinDone).map (List.map f) =
        (s.entriesOf chain path fields done).map (List.map f) := by
  fun_induction s.entriesOf chain path fields done with
  | case1 =>
    intro twins twinDone hfields hdone
    cases hfields
    rw [entriesOf]
    exact congrArg Except.ok hdone
  | case2 chain path d rest done hdeclared ih =>
    intro twins twinDone hfields hdone
    obtain ⟨twin, twinRest, hd, hrest, rfl⟩ := List.forall₂_cons_left_iff.1 hfields
    have hskip : twin.isDeclared = false := hd.isDeclared.trans (by simpa using hdeclared)
    rw [entriesOf_undeclared hskip]
    exact ih _ _ hrest hdone
  | case3 chain path d rest done here fail hdeclared fault hfault =>
    intro twins twinDone hfields hdone
    obtain ⟨twin, twinRest, hd, hrest, rfl⟩ := List.forall₂_cons_left_iff.1 hfields
    have htwin : twin.isDeclared = true := hd.isDeclared.trans (by simpa using hdeclared)
    rw [entriesOf_fault htwin (hd.fault?.trans hfault), hd.name]
  | case4 chain path d rest done here fail hdeclared hrole hfault =>
    exact absurd hrole (Declaration.role?_ne_none hfault)
  | case5 chain path d rest done here hdeclared target hrole hfault ih =>
    intro twins twinDone hfields hdone
    obtain ⟨twin, twinRest, hd, hrest, rfl⟩ := List.forall₂_cons_left_iff.1 hfields
    have hnext := Plan.redeclare_congr_map hname (hd.entry (path ++ [d.name]) target) hdone
    rw [entriesOf_entry (hd.fault?.trans hfault) (hd.role?.trans hrole), hd.name]
    exact ih _ _ hrest hnext
  | case6 chain path d rest done here fail hdeclared inner hrole hfault hchain =>
    intro twins twinDone hfields hdone
    obtain ⟨twin, twinRest, hd, hrest, rfl⟩ := List.forall₂_cons_left_iff.1 hfields
    rw [entriesOf_recursive (hd.fault?.trans hfault) (hd.role?.trans hrole) hchain, hd.name, h.nameOf_eq]
  | case7 chain path d rest done here hdeclared inner hrole hfault hchain e hfound ihinner =>
    intro twins twinDone hfields hdone
    obtain ⟨twin, twinRest, hd, hrest, rfl⟩ := List.forall₂_cons_left_iff.1 hfields
    have hinner := ihinner _ [] (h.fieldsOf inner) rfl
    rw [hfound] at hinner
    rw [entriesOf_embeds (hd.fault?.trans hfault) (hd.role?.trans hrole) hchain, hd.name]
    exact congrArg (fun found => Except.map _ (Except.bind found _)) (map_eq_error.1 hinner)
  | case8 chain path d rest done here hdeclared inner hrole hfault hchain found hfound ihinner ih =>
    intro twins twinDone hfields hdone
    obtain ⟨twin, twinRest, hd, hrest, rfl⟩ := List.forall₂_cons_left_iff.1 hfields
    have hinner := ihinner _ [] (h.fieldsOf inner) rfl
    rw [hfound] at hinner
    obtain ⟨twinFound, htwin, hsame⟩ := map_eq_ok.1 hinner
    rw [entriesOf_embeds (hd.fault?.trans hfault) (hd.role?.trans hrole) hchain, hd.name]
    refine (congrArg (fun found => Except.map _ (Except.bind found _)) htwin).trans ?_
    exact ih _ _ hrest (Plan.fill_congr_map hname hsame hdone)

/-- Both plans exist or fail alike, with the same entries up to what `f` drops. -/
theorem Alike.plan_eq (h : s.Alike f t) (hname : ∀ e, (f e).name = e.name) (type : TypeId) :
    (t.plan type).map (fun plan => plan.entries.map f) =
      (s.plan type).map fun plan => plan.entries.map f := by
  have hentries := h.entriesOf_eq hname [type] [] (s.fieldsOf type) [] _ [] (h.fieldsOf type) rfl
  rw [plan, plan]
  cases ht : t.entriesOf [type] [] (t.fieldsOf type) [] with
  | error e =>
    cases hs : s.entriesOf [type] [] (s.fieldsOf type) [] with
    | error e' => rw [ht, hs] at hentries; exact hentries
    | ok entries => rw [ht, hs] at hentries; cases hentries
  | ok entries =>
    cases hs : s.entriesOf [type] [] (s.fieldsOf type) [] with
    | error e' => rw [ht, hs] at hentries; cases hentries
    | ok entries => rw [ht, hs] at hentries; exact hentries

end Schema

end Criteria
