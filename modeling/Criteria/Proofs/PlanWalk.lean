import Criteria.Proofs.PlanEntries

set_option autoImplicit false

namespace Criteria

namespace Plan

def Entry.under (above : List String) (e : Entry) : Entry := { e with path := above ++ e.path }

theorem under_entry (above path : List String) (d : Declaration) (target : Target) :
    (d.entry path target).under above = d.entry (above ++ path) target := rfl

variable {f : Entry → Entry}

theorem redeclare_map (hname : ∀ e, (f e).name = e.name) (e : Entry) (entries : List Entry) :
    redeclare (f e) (entries.map f) = (redeclare e entries).map f := by
  have hfilter : (entries.map f).filter (fun old => old.name ≠ (f e).name) =
      (entries.filter fun old => old.name ≠ e.name).map f := by
    rw [List.filter_map]
    refine congrArg (List.map f) (List.filter_congr fun old _ => ?_)
    rw [Function.comp_apply, hname, hname]
  unfold redeclare
  rw [List.map_append, ← hfilter]
  rfl

theorem addMissing_map (hname : ∀ e, (f e).name = e.name) (e : Entry) (entries : List Entry) :
    addMissing (entries.map f) (f e) = (addMissing entries e).map f := by
  have hany : (entries.map f).any (fun old => old.name = (f e).name) =
      entries.any fun old => old.name = e.name := by
    rw [List.any_map]
    refine congrArg entries.any (funext fun old => ?_)
    rw [Function.comp_apply, hname, hname]
  unfold addMissing
  rw [hany]
  split
  · rfl
  · rw [List.map_append]
    rfl

theorem fill_map (hname : ∀ e, (f e).name = e.name) (embedded entries : List Entry) :
    fill (embedded.map f) (entries.map f) = (fill embedded entries).map f := by
  induction embedded generalizing entries with
  | nil => rfl
  | cons e embedded ih =>
    change fill (embedded.map f) (addMissing (entries.map f) (f e)) = _
    rw [addMissing_map hname, ih]
    rfl

end Plan

namespace Schema

/-- The walk over `fields` below `chain` and `path` gets from the entries `done` to `entries`. -/
inductive WalksTo (s : Schema) : List TypeId → List String → List Declaration →
    List Plan.Entry → List Plan.Entry → Prop where
  | nil {chain : List TypeId} {path : List String} {done : List Plan.Entry} :
    WalksTo s chain path [] done done
  | skip {chain : List TypeId} {path : List String} {d : Declaration} {rest : List Declaration}
      {done entries : List Plan.Entry} (hdeclared : d.isDeclared = false)
      (hrest : WalksTo s chain path rest done entries) :
    WalksTo s chain path (d :: rest) done entries
  | entry {chain : List TypeId} {path : List String} {d : Declaration} {rest : List Declaration}
      {done entries : List Plan.Entry} {target : Target} (hdeclared : d.isDeclared = true)
      (hfault : d.fault? = none) (hrole : d.role? = some (.entry target))
      (hrest : WalksTo s chain path rest
        (Plan.redeclare (d.entry (path ++ [d.name]) target) done) entries) :
    WalksTo s chain path (d :: rest) done entries
  | embeds {chain : List TypeId} {path : List String} {d : Declaration} {rest : List Declaration}
      {done found entries : List Plan.Entry} {inner : TypeId} (hfault : d.fault? = none)
      (hembeds : d.Embeds inner) (hchain : inner ∉ chain)
      (hinner : WalksTo s (chain ++ [inner]) (path ++ [d.name]) (s.fieldsOf inner) [] found)
      (hrest : WalksTo s chain path rest (Plan.fill found done) entries) :
    WalksTo s chain path (d :: rest) done entries

variable {s : Schema} {chain : List TypeId} {path : List String} {fields : List Declaration}
  {done entries : List Plan.Entry}

theorem walksTo_of_entriesOf (s : Schema) (chain : List TypeId) (path : List String)
    (fields : List Declaration) (done entries : List Plan.Entry)
    (h : s.entriesOf chain path fields done = .ok entries) :
    s.WalksTo chain path fields done entries := by
  fun_induction s.entriesOf chain path fields done generalizing entries with
  | case1 =>
    obtain rfl := Except.ok.inj h
    exact .nil
  | case2 chain path d rest done hdeclared ih => exact .skip (by simpa using hdeclared) (ih entries h)
  | case3 => cases h
  | case4 => cases h
  | case5 chain path d rest done here hdeclared target hrole hfault ih =>
    exact .entry (by simpa using hdeclared) hfault hrole (ih entries h)
  | case6 => cases h
  | case7 => cases h
  | case8 chain path d rest done here hdeclared inner hrole hfault hchain found hfound ihinner ih =>
    exact .embeds hfault (Declaration.embeds_iff_role?.2 hrole) hchain (ihinner found hfound) (ih entries h)

theorem WalksTo.entriesOf_eq (h : s.WalksTo chain path fields done entries) :
    s.entriesOf chain path fields done = .ok entries := by
  induction h with
  | nil => rw [entriesOf]
  | skip hdeclared _ ih => rw [entriesOf_undeclared hdeclared, ih]
  | entry hdeclared hfault hrole _ ih => rw [entriesOf_entry hfault hrole, ih]
  | embeds hfault hembeds hchain _ _ ihinner ih =>
    rw [entriesOf_embeds hfault (Declaration.embeds_iff_role?.1 hembeds) hchain, ihinner]
    exact ih

theorem plan_eq_ok_iff {type : TypeId} {plan : Plan} :
    s.plan type = .ok plan ↔
      plan.type = type ∧ s.WalksTo [type] [] (s.fieldsOf type) [] plan.entries := by
  obtain ⟨planType, entries⟩ := plan
  rw [Schema.plan, map_eq_ok]
  constructor
  · rintro ⟨found, hfound, hplan⟩
    obtain ⟨rfl, rfl⟩ := Plan.mk.inj hplan
    exact ⟨rfl, walksTo_of_entriesOf _ _ _ _ _ _ hfound⟩
  · rintro ⟨rfl, hwalk⟩
    exact ⟨entries, hwalk.entriesOf_eq, rfl⟩

theorem WalksTo.rebase (h : s.WalksTo chain path fields done entries) {outer : List TypeId}
    {above inside : List String} {before : List Plan.Entry} (hchain : ∀ type ∈ outer, type ∈ chain)
    (hpath : path = above ++ inside) (hdone : done = before.map (Plan.Entry.under above)) :
    ∃ found, s.WalksTo outer inside fields before found ∧
      entries = found.map (Plan.Entry.under above) := by
  -- names do not change when fields are put in front of a path, and operations on entries go by name
  induction h generalizing outer inside before with
  | nil => exact ⟨before, .nil, hdone⟩
  | skip hdeclared _ ih =>
    obtain ⟨found, hfound, heq⟩ := ih hchain hpath hdone
    exact ⟨found, .skip hdeclared hfound, heq⟩
  | @entry chain path d rest done entries target hdeclared hfault hrole _ ih =>
    have hentry : d.entry (path ++ [d.name]) target =
        (d.entry (inside ++ [d.name]) target).under above := by
      rw [Plan.under_entry, hpath, List.append_assoc]
    have hname : ∀ e : Plan.Entry, (e.under above).name = e.name := fun _ => rfl
    have hnext := Plan.redeclare_map hname (d.entry (inside ++ [d.name]) target) before
    rw [← hentry, ← hdone] at hnext
    obtain ⟨found, hfound, heq⟩ := ih hchain hpath hnext
    exact ⟨found, .entry hdeclared hfault hrole hfound, heq⟩
  | @embeds chain path d rest done embedded entries inner hfault hembeds hnew _ _ ihinner ih =>
    have hinnerChain : ∀ type ∈ outer ++ [inner], type ∈ chain ++ [inner] := by
      intro type hmem
      rcases List.mem_append.1 hmem with hold | hlast
      · exact List.mem_append_left _ (hchain type hold)
      · exact List.mem_append_right _ hlast
    have hinnerPath : path ++ [d.name] = above ++ (inside ++ [d.name]) := by
      rw [hpath, List.append_assoc]
    have hnone : ([] : List Plan.Entry) = [].map (Plan.Entry.under above) := rfl
    obtain ⟨below, hbelow, hembedded⟩ := ihinner hinnerChain hinnerPath hnone
    have hname : ∀ e : Plan.Entry, (e.under above).name = e.name := fun _ => rfl
    have hnext := Plan.fill_map hname below before
    rw [← hembedded, ← hdone] at hnext
    obtain ⟨found, hfound, heq⟩ := ih hchain hpath hnext
    exact ⟨found, .embeds hfault hembeds (fun hmem => hnew (hchain inner hmem)) hbelow hfound, heq⟩

/-- What an embedded struct adds is its own plan, found through the embedding field. -/
theorem WalksTo.exists_plan {inner : TypeId} {name : String} {found : List Plan.Entry}
    (h : s.WalksTo (chain ++ [inner]) [name] (s.fieldsOf inner) [] found) :
    ∃ plan, s.plan inner = .ok plan ∧ found = plan.entries.map (Plan.Entry.under [name]) := by
  have hchain : ∀ type ∈ [inner], type ∈ chain ++ [inner] :=
    fun type hmem => List.mem_append_right _ hmem
  have hnone : ([] : List Plan.Entry) = [].map (Plan.Entry.under [name]) := rfl
  obtain ⟨own, hown, hfound⟩ := h.rebase hchain (List.append_nil [name]).symm hnone
  exact ⟨⟨inner, own⟩, plan_eq_ok_iff.2 ⟨rfl, hown⟩, hfound⟩

end Schema

end Criteria
