import Criteria.Proofs.Sites

set_option autoImplicit false

namespace Criteria

theorem Declaration.queryOp_entry (d : Declaration) (path : List String) (target : Target) :
    (d.entry path target).queryOp = d.query?.getD .eq := rfl

theorem Declaration.update_entry (d : Declaration) (path : List String) (target : Target) :
    (d.entry path target).update = d.update? := rfl

namespace Plan

variable {e old : Entry} {entries embedded : List Entry}

theorem mem_redeclare (h : old ∈ redeclare e entries) : old ∈ entries ∨ old = e := by
  rcases List.mem_append.1 h with hold | hnew
  · exact .inl (List.mem_filter.1 hold).1
  · exact .inr (List.mem_singleton.1 hnew)

theorem mem_addMissing (h : old ∈ addMissing entries e) : old ∈ entries ∨ old = e := by
  unfold addMissing at h
  split at h
  · exact .inl h
  · simpa using h

theorem mem_fill (h : old ∈ fill embedded entries) : old ∈ entries ∨ old ∈ embedded := by
  induction embedded generalizing entries with
  | nil => exact .inl h
  | cons e embedded ih =>
    rcases ih h with hold | hrest
    · rcases mem_addMissing hold with hold | rfl
      · exact .inl hold
      · exact .inr List.mem_cons_self
    · exact .inr (List.mem_cons_of_mem _ hrest)

end Plan

namespace Schema

section Steps

variable {s : Schema} {chain : List TypeId} {path : List String} {d : Declaration}
  {rest : List Declaration} {inner : TypeId}

theorem entriesOf_undeclared (h : d.isDeclared = false) (done : List Plan.Entry) :
    s.entriesOf chain path (d :: rest) done = s.entriesOf chain path rest done := by
  rw [entriesOf]
  simp [h]

theorem entriesOf_fault {fault : Fault} (hdeclared : d.isDeclared = true) (h : d.fault? = some fault)
    (done : List Plan.Entry) : s.entriesOf chain path (d :: rest) done =
      .error (.declaration (String.intercalate "." (path ++ [d.name])) fault) := by
  rw [entriesOf]
  simp [hdeclared, h]

theorem entriesOf_entry {target : Target} (h : d.fault? = none) (hrole : d.role? = some (.entry target))
    (done : List Plan.Entry) : s.entriesOf chain path (d :: rest) done =
      s.entriesOf chain path rest (Plan.redeclare (d.entry (path ++ [d.name]) target) done) := by
  rw [entriesOf]
  simp [Declaration.isDeclared_of_role? hrole, h, hrole]

theorem entriesOf_recursive (h : d.fault? = none) (hrole : d.role? = some (.embeds inner))
    (hchain : inner ∈ chain) (done : List Plan.Entry) : s.entriesOf chain path (d :: rest) done =
      .error (.declaration (String.intercalate "." (path ++ [d.name]))
        (.recursiveFlatten (s.nameOf inner))) := by
  rw [entriesOf]
  simp [Declaration.isDeclared_of_role? hrole, h, hrole, hchain]

theorem entriesOf_embeds (h : d.fault? = none) (hrole : d.role? = some (.embeds inner))
    (hchain : inner ∉ chain) (done : List Plan.Entry) : s.entriesOf chain path (d :: rest) done =
      (s.entriesOf (chain ++ [inner]) (path ++ [d.name]) (s.fieldsOf inner) []).bind fun found =>
        s.entriesOf chain path rest (Plan.fill found done) := by
  rw [entriesOf]
  simp only [Declaration.isDeclared_of_role? hrole, h, hrole, hchain, Bool.not_true, Bool.false_eq_true,
    if_false]
  cases s.entriesOf (chain ++ [inner]) (path ++ [d.name]) (s.fieldsOf inner) [] <;> rfl

end Steps

/-- An entry is made at a site of some declarations that stand below `path`. -/
def Makes (s : Schema) (path : List String) (fields : List Declaration) (e : Plan.Entry) : Prop :=
  ∃ address site target, s.Reaches fields address site ∧ site.declaration.fault? = none ∧
    site.declaration.role? = some (.entry target) ∧
    e = site.declaration.entry (path ++ site.path) target

variable {s : Schema} {path : List String} {d : Declaration} {rest : List Declaration}
  {e : Plan.Entry}

theorem Makes.cons (d : Declaration) (h : s.Makes path rest e) : s.Makes path (d :: rest) e := by
  obtain ⟨address, site, target, hsite, hmade⟩ := h
  cases address with
  | nil => exact absurd rfl hsite.address_ne_nil
  | cons i address => exact ⟨(i + 1) :: address, site, target, reaches_succ_iff.2 hsite, hmade⟩

theorem makes_head {target : Target} (hfault : d.fault? = none)
    (hrole : d.role? = some (.entry target)) :
    s.Makes path (d :: rest) (d.entry (path ++ [d.name]) target) :=
  ⟨[0], _, target, .here rfl, hfault, hrole, rfl⟩

theorem Makes.embedded {inner : TypeId} (hrole : d.role? = some (.embeds inner))
    (h : s.Makes (path ++ [d.name]) (s.fieldsOf inner) e) : s.Makes path (d :: rest) e := by
  obtain ⟨address, site, target, hsite, hfault, hentry, rfl⟩ := h
  have hreaches : s.Reaches (d :: rest) (0 :: address) _ :=
    .inside rfl (Declaration.embeds_iff_role?.2 hrole) hsite
  exact ⟨0 :: address, _, target, hreaches, hfault, hentry, by simp⟩

theorem makes_of_mem_entriesOf (s : Schema) (chain : List TypeId) (path : List String)
    (fields : List Declaration) (done entries : List Plan.Entry)
    (h : s.entriesOf chain path fields done = .ok entries) :
    ∀ e ∈ entries, e ∈ done ∨ s.Makes path fields e := by
  fun_induction s.entriesOf chain path fields done generalizing entries with
  | case1 chain path done =>
    obtain rfl := Except.ok.inj h
    exact fun e he => .inl he
  | case2 chain path d rest done hdeclared ih =>
    exact fun e he => (ih entries h e he).imp_right (Makes.cons d)
  | case3 => cases h
  | case4 => cases h
  | case5 chain path d rest done here hdeclared target hrole hfault ih =>
    intro e he
    rcases ih entries h e he with hdone | hmade
    · rcases Plan.mem_redeclare hdone with hold | rfl
      · exact .inl hold
      · exact .inr (makes_head hfault hrole)
    · exact .inr (hmade.cons d)
  | case6 => cases h
  | case7 => cases h
  | case8 chain path d rest done here hdeclared inner hrole hfault hchain found hfound ihinner ih =>
    intro e he
    rcases ih entries h e he with hdone | hmade
    · rcases Plan.mem_fill hdone with hold | hembedded
      · exact .inl hold
      · rcases ihinner found hfound e hembedded with hnil | hmade
        · cases hnil
        · exact .inr (hmade.embedded hrole)
    · exact .inr (hmade.cons d)

theorem makes_of_mem_plan {type : TypeId} {plan : Plan} (h : s.plan type = .ok plan) :
    ∀ e ∈ plan.entries, s.Makes [] (s.fieldsOf type) e := by
  obtain ⟨entries, hentries, rfl⟩ := map_eq_ok.1 h
  intro e he
  rcases makes_of_mem_entriesOf s [type] [] (s.fieldsOf type) [] entries hentries e he with
    hnil | hmade
  · cases hnil
  · exact hmade

end Schema

end Criteria
