import Mathlib.Data.List.Nodup
import Criteria.Proofs.PlanWalk

set_option autoImplicit false

namespace Criteria

namespace Plan

def Entry.atTop (e : Entry) : Entry := { e with path := [e.name] }

variable {e : Entry} {entries embedded : List Entry}

theorem redeclare_of_new (h : e.name ∉ entries.map (·.name)) : redeclare e entries = entries ++ [e] := by
  unfold redeclare
  rw [List.filter_eq_self.2]
  intro old hold
  have hne : old.name ≠ e.name := fun heq => h (heq ▸ List.mem_map_of_mem hold)
  simpa using hne

theorem addMissing_of_new (h : e.name ∉ entries.map (·.name)) :
    addMissing entries e = entries ++ [e] := by
  unfold addMissing
  rw [if_neg]
  simpa using h

theorem fill_of_new (h : (entries.map (·.name) ++ embedded.map (·.name)).Nodup) :
    fill embedded entries = entries ++ embedded := by
  induction embedded generalizing entries with
  | nil => exact (List.append_nil entries).symm
  | cons e embedded ih =>
    have hnew : e.name ∉ entries.map (·.name) := by
      rw [List.map_cons] at h
      exact fun hmem => (List.nodup_append.1 h).2.2 _ hmem _ List.mem_cons_self rfl
    have hnext : ((entries ++ [e]).map (·.name) ++ embedded.map (·.name)).Nodup := by simpa using h
    change fill embedded (addMissing entries e) = _
    rw [addMissing_of_new hnew, ih hnext]
    simp

end Plan

namespace Schema

def Site.inside (name : String) (inner : TypeId) (site : Site) : Site :=
  ⟨inner :: site.types, name :: site.path, site.declaration⟩

/-- The declarations that stand for one declaration, with the way to each. A struct of the chain is
not entered again; where a plan exists that never happens. -/
def expand (s : Schema) (chain : List TypeId) (d : Declaration) : List Site :=
  if d.embedded then
    match d.shape.embedded? with
    | some inner =>
      if _h : inner < s.size ∧ inner ∉ chain then
        (s.fieldsOf inner).flatMap fun below =>
          (s.expand (chain ++ [inner]) below).map (Site.inside d.name inner)
      else []
    | none => []
  else [⟨[], [d.name], d⟩]
termination_by s.unvisited chain
decreasing_by exact unvisited_append_lt _h.2 _h.1

def expandAll (s : Schema) (chain : List TypeId) (fields : List Declaration) : List Site :=
  fields.flatMap (s.expand chain)

def expansion (s : Schema) (type : TypeId) : List Declaration :=
  (s.expandAll [type] (s.fieldsOf type)).map (·.declaration)

def Site.name (site : Site) : String := site.declaration.name

variable {s : Schema} {chain : List TypeId} {path : List String} {d : Declaration} {inner : TypeId}
  {fields : List Declaration} {done entries : List Plan.Entry}

theorem expand_own (h : d.embedded = false) : s.expand chain d = [⟨[], [d.name], d⟩] := by
  rw [expand, h]
  rfl

theorem expand_embeds (h : d.Embeds inner) (hchain : inner ∉ chain) :
    s.expand chain d =
      (s.expandAll (chain ++ [inner]) (s.fieldsOf inner)).map (Site.inside d.name inner) := by
  have hshape : d.shape.embedded? = some inner := Shape.embedded?_eq_some_iff.2 h.2
  rw [expand, h.1, hshape, expandAll, List.map_flatMap]
  by_cases hsize : inner < s.size
  · simp [hsize, hchain]
  · simp [hsize, fieldsOf_eq_nil hsize]

theorem expandAll_cons (d : Declaration) (rest : List Declaration) :
    s.expandAll chain (d :: rest) = s.expand chain d ++ s.expandAll chain rest :=
  List.flatMap_cons

theorem mem_expandAll {site : Site} :
    site ∈ s.expandAll chain fields ↔ ∃ d ∈ fields, site ∈ s.expand chain d :=
  List.mem_flatMap

/-- Following the embedded structs below a declaration comes to an end. -/
inductive Unfolds (s : Schema) : List TypeId → Declaration → Prop where
  | own {chain : List TypeId} {d : Declaration} (h : d.embedded = false) : Unfolds s chain d
  | embeds {chain : List TypeId} {d : Declaration} {inner : TypeId} (h : d.Embeds inner)
      (hchain : inner ∉ chain) (hfields : ∀ below ∈ s.fieldsOf inner, Unfolds s (chain ++ [inner]) below) :
    Unfolds s chain d

theorem WalksTo.unfolds (h : s.WalksTo chain path fields done entries) :
    ∀ d ∈ fields, s.Unfolds chain d := by
  induction h with
  | nil => simp
  | @skip chain path d rest done entries hdeclared _ ih =>
    have hown := Declaration.not_embedded_of_undeclared hdeclared
    exact List.forall_mem_cons.2 ⟨.own hown, ih⟩
  | @entry chain path d rest done entries target _ _ hrole _ ih =>
    have hown := Declaration.not_embedded_of_entry hrole
    exact List.forall_mem_cons.2 ⟨.own hown, ih⟩
  | embeds _ hembeds hchain _ _ ihinner ih =>
    exact List.forall_mem_cons.2 ⟨.embeds hembeds hchain ihinner, ih⟩

def Site.planned? (path : List String) (site : Site) : Option Plan.Entry :=
  if site.declaration.isDeclared then
    match site.declaration.role? with
    | some (.entry target) => some (site.declaration.entry (path ++ site.path) target)
    | _ => none
  else none

theorem Site.planned?_inside (path : List String) (name : String) (inner : TypeId) (site : Site) :
    (site.inside name inner).planned? path = site.planned? (path ++ [name]) := by
  unfold Site.planned? Site.inside
  rw [List.append_assoc]
  rfl

theorem Site.planned?_atTop (site : Site) :
    Site.planned? [] ⟨[], [site.name], site.declaration⟩ =
      (site.planned? []).map Plan.Entry.atTop := by
  unfold Site.planned?
  dsimp only
  cases site.declaration.isDeclared with
  | false => rfl
  | true =>
    cases site.declaration.role? with
    | none => rfl
    | some role => cases role <;> rfl

theorem Site.eq_entry_of_planned? {site : Site} {e : Plan.Entry} (h : site.planned? path = some e) :
    ∃ target, e = site.declaration.entry (path ++ site.path) target := by
  unfold Site.planned? at h
  split at h
  · split at h
    · exact ⟨_, (Option.some.inj h).symm⟩
    · cases h
  · cases h

theorem Site.name_of_planned? {site : Site} {e : Plan.Entry} (h : site.planned? path = some e) :
    e.name = site.name := by
  obtain ⟨target, rfl⟩ := Site.eq_entry_of_planned? h
  rfl

theorem Site.path_of_planned? {site : Site} {e : Plan.Entry} (h : site.planned? path = some e) :
    e.path = path ++ site.path := by
  obtain ⟨target, rfl⟩ := Site.eq_entry_of_planned? h
  rfl

theorem names_entries_sublist (path : List String) (sites : List Site) :
    ((sites.filterMap (Site.planned? path)).map (·.name)).Sublist (sites.map Site.name) := by
  induction sites with
  | nil => exact List.Sublist.slnil
  | cons site sites ih =>
    cases hentry : site.planned? path with
    | none =>
      rw [List.filterMap_cons_none hentry]
      exact ih.cons _
    | some e =>
      rw [List.filterMap_cons_some hentry, List.map_cons, List.map_cons, Site.name_of_planned? hentry]
      exact ih.cons_cons _

theorem names_inside (name : String) (inner : TypeId) (sites : List Site) :
    (sites.map (Site.inside name inner)).map Site.name = sites.map Site.name := by
  rw [List.map_map]
  rfl

theorem entries_inside (path : List String) (name : String) (inner : TypeId) (sites : List Site) :
    (sites.map (Site.inside name inner)).filterMap (Site.planned? path) =
      sites.filterMap (Site.planned? (path ++ [name])) := by
  rw [List.filterMap_map]
  exact List.filterMap_congr fun site _ => Site.planned?_inside path name inner site

theorem WalksTo.eq_append_expandAll (h : s.WalksTo chain path fields done entries)
    (hnames : (done.map (·.name) ++ (s.expandAll chain fields).map Site.name).Nodup) :
    entries = done ++ (s.expandAll chain fields).filterMap (Site.planned? path) := by
  -- the names stay distinct along the walk, so no entry is replaced and none is left out
  induction h with
  | nil => exact (List.append_nil _).symm
  | @skip chain path d rest done entries hdeclared _ ih =>
    have hown := Declaration.not_embedded_of_undeclared hdeclared
    have hnone : Site.planned? path ⟨[], [d.name], d⟩ = none := by simp [Site.planned?, hdeclared]
    rw [expandAll_cons, expand_own hown] at hnames ⊢
    rw [List.filterMap_append, List.filterMap_cons_none hnone]
    exact ih (hnames.sublist ((List.Sublist.refl _).append (List.sublist_cons_self _ _)))
  | @entry chain path d rest done entries target hdeclared _ hrole _ ih =>
    have hown := Declaration.not_embedded_of_entry hrole
    have hentry : Site.planned? path ⟨[], [d.name], d⟩ =
        some (d.entry (path ++ [d.name]) target) := by
      simp [Site.planned?, hdeclared, hrole]
    rw [expandAll_cons, expand_own hown] at hnames ⊢
    have hnew : d.name ∉ done.map (·.name) := fun hmem =>
      (List.nodup_append.1 hnames).2.2 _ hmem _ List.mem_cons_self rfl
    have hredeclare := Plan.redeclare_of_new (e := d.entry (path ++ [d.name]) target) hnew
    rw [hredeclare] at ih
    have hnext : ((done ++ [d.entry (path ++ [d.name]) target]).map (·.name) ++
        (s.expandAll chain rest).map Site.name).Nodup := by
      rw [List.map_append, List.append_assoc]
      exact hnames
    rw [ih hnext, List.filterMap_append, List.filterMap_cons_some hentry, List.append_assoc]
    rfl
  | @embeds chain path d rest done found entries inner _ hembeds hchain _ _ ihinner ih =>
    -- the walk below starts from nothing, and what it finds has the names of the expansion only
    rw [expandAll_cons, expand_embeds hembeds hchain, List.map_append, names_inside] at hnames
    have hinner : ((s.expandAll (chain ++ [inner]) (s.fieldsOf inner)).map Site.name).Nodup :=
      hnames.sublist ((List.sublist_append_left _ _).trans (List.sublist_append_right _ _))
    have hfound := ihinner hinner
    rw [List.nil_append] at hfound
    have hsublist : (found.map (·.name)).Sublist
        ((s.expandAll (chain ++ [inner]) (s.fieldsOf inner)).map Site.name) := by
      rw [hfound]
      exact names_entries_sublist _ _
    have hfill : Plan.fill found done = done ++ found :=
      Plan.fill_of_new (hnames.sublist
        ((List.Sublist.refl _).append (hsublist.trans (List.sublist_append_left _ _))))
    rw [hfill] at ih
    have hnext : ((done ++ found).map (·.name) ++ (s.expandAll chain rest).map Site.name).Nodup := by
      rw [List.map_append, List.append_assoc]
      exact hnames.sublist ((List.Sublist.refl _).append (hsublist.append (List.Sublist.refl _)))
    rw [ih hnext, expandAll_cons, expand_embeds hembeds hchain, List.filterMap_append,
      entries_inside, ← hfound, List.append_assoc]

/-- Nothing in an expansion is embedded, and what is declared there keeps the rules. -/
theorem WalksTo.keeps_rules (h : s.WalksTo chain path fields done entries) :
    ∀ site ∈ s.expandAll chain fields, site.declaration.embedded = false ∧
      (site.declaration.isDeclared = true → site.declaration.fault? = none) := by
  induction h with
  | nil => simp [expandAll]
  | @skip chain path d rest done entries hdeclared _ ih =>
    have hown := Declaration.not_embedded_of_undeclared hdeclared
    rw [expandAll_cons, expand_own hown]
    exact List.forall_mem_cons.2 ⟨⟨hown, by simp [hdeclared]⟩, ih⟩
  | @entry chain path d rest done entries target _ hfault hrole _ ih =>
    have hown := Declaration.not_embedded_of_entry hrole
    rw [expandAll_cons, expand_own hown]
    exact List.forall_mem_cons.2 ⟨⟨hown, fun _ => hfault⟩, ih⟩
  | @embeds chain path d rest done found entries inner _ hembeds hchain _ _ ihinner ih =>
    rw [expandAll_cons, expand_embeds hembeds hchain]
    refine List.forall_mem_append.2 ⟨?_, ih⟩
    intro site hsite
    obtain ⟨below, hbelow, rfl⟩ := List.mem_map.1 hsite
    exact ihinner below hbelow

theorem expandAll_own {ds : List Declaration} (h : ∀ d ∈ ds, d.embedded = false) :
    s.expandAll chain ds = ds.map fun d => ⟨[], [d.name], d⟩ := by
  induction ds with
  | nil => rfl
  | cons d ds ih =>
    obtain ⟨hown, hrest⟩ := List.forall_mem_cons.1 h
    rw [expandAll_cons, expand_own hown, ih hrest]
    rfl

theorem exists_walksTo_own (s : Schema) (chain : List TypeId) (path : List String)
    {ds : List Declaration} (hown : ∀ d ∈ ds, d.embedded = false)
    (hrules : ∀ d ∈ ds, d.isDeclared = true → d.fault? = none) (done : List Plan.Entry) :
    ∃ entries, s.WalksTo chain path ds done entries := by
  induction ds generalizing done with
  | nil => exact ⟨done, .nil⟩
  | cons d ds ih =>
    obtain ⟨hhead, hrest⟩ := List.forall_mem_cons.1 hown
    obtain ⟨hrule, hrules⟩ := List.forall_mem_cons.1 hrules
    cases hdeclared : d.isDeclared with
    | false =>
      obtain ⟨entries, hwalk⟩ := ih hrest hrules done
      exact ⟨entries, .skip hdeclared hwalk⟩
    | true =>
      have hfault := hrule hdeclared
      obtain ⟨role, hrole⟩ := Option.isSome_iff_exists.1
        (Declaration.role?_isSome_of_fault?_eq_none hfault)
      cases role with
      | entry target =>
        obtain ⟨entries, hwalk⟩ :=
          ih hrest hrules (Plan.redeclare (d.entry (path ++ [d.name]) target) done)
        exact ⟨entries, .entry hdeclared hfault hrole hwalk⟩
      | embeds inner =>
        have hembeds := Declaration.embeds_iff_role?.2 hrole
        rw [hembeds.1] at hhead
        cases hhead

theorem names_expandAll_nodup {type : TypeId} (h : ((s.expansion type).map (·.name)).Nodup) :
    ((s.expandAll [type] (s.fieldsOf type)).map Site.name).Nodup := by
  rw [expansion, List.map_map] at h
  exact h

theorem entries_of_expansion {type : TypeId} {plan : Plan} (hplan : s.plan type = .ok plan)
    (hnames : ((s.expansion type).map (·.name)).Nodup) :
    plan.entries = (s.expandAll [type] (s.fieldsOf type)).filterMap (Site.planned? []) := by
  obtain ⟨-, hwalk⟩ := plan_eq_ok_iff.1 hplan
  have hentries := hwalk.eq_append_expandAll (by simpa using names_expandAll_nodup hnames)
  rw [hentries, List.nil_append]

/-- The plan of a struct that declares the expansion of another. -/
theorem plan_of_expansion {t : Schema} {type flat : TypeId} {plan : Plan}
    (hplan : s.plan type = .ok plan) (hnames : ((s.expansion type).map (·.name)).Nodup)
    (hflat : t.fieldsOf flat = s.expansion type) :
    t.plan flat = .ok ⟨flat, plan.entries.map Plan.Entry.atTop⟩ := by
  obtain ⟨-, hwalk⟩ := plan_eq_ok_iff.1 hplan
  have hsites := names_expandAll_nodup hnames
  have hentries := entries_of_expansion hplan hnames
  have hkept := hwalk.keeps_rules
  have hown : ∀ d ∈ s.expansion type, d.embedded = false := by
    intro d hd
    obtain ⟨site, hsite, rfl⟩ := List.mem_map.1 hd
    exact (hkept site hsite).1
  have hrules : ∀ d ∈ s.expansion type, d.isDeclared = true → d.fault? = none := by
    intro d hd
    obtain ⟨site, hsite, rfl⟩ := List.mem_map.1 hd
    exact (hkept site hsite).2
  obtain ⟨entries, hflatWalk⟩ := exists_walksTo_own t [flat] [] hown hrules []
  have hflatSites : t.expandAll [flat] (s.expansion type) =
      (s.expandAll [type] (s.fieldsOf type)).map fun site => ⟨[], [site.name], site.declaration⟩ := by
    rw [expandAll_own hown, expansion, List.map_map]
    rfl
  have hflatNames : (([] : List Plan.Entry).map (·.name) ++
      (t.expandAll [flat] (s.expansion type)).map Site.name).Nodup := by
    rw [hflatSites, List.map_map]
    exact hsites
  have hflatEntries := hflatWalk.eq_append_expandAll hflatNames
  have heq : entries = plan.entries.map Plan.Entry.atTop := by
    rw [hflatEntries, hflatSites, hentries, List.nil_append, List.filterMap_map, List.map_filterMap]
    exact List.filterMap_congr fun site _ => site.planned?_atTop
  rw [plan_eq_ok_iff, hflat]
  exact ⟨rfl, heq ▸ hflatWalk⟩

end Schema

end Criteria
