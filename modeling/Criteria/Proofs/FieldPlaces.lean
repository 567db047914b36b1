import Mathlib.Data.List.Nodup
import Criteria.Proofs.Conformance

set_option autoImplicit false

namespace Criteria

def Plan.below (name : String) (entries : List Plan.Entry) : List Plan.Entry :=
  entries.filterMap fun e =>
    match e.path with
    | step :: next :: rest => if step = name then some { e with path := next :: rest } else none
    | _ => none

theorem Plan.mem_below_iff {name : String} {entries : List Plan.Entry} {below : Plan.Entry} :
    below ∈ Plan.below name entries ↔
      ∃ e ∈ entries, e.path = name :: below.path ∧ below.path ≠ [] ∧
        below = { e with path := below.path } := by
  unfold Plan.below
  rw [List.mem_filterMap]
  constructor
  · rintro ⟨e, he, hbelow⟩
    split at hbelow
    · rename_i step next rest hpath
      split at hbelow
      · rename_i hstep
        obtain rfl := Option.some.inj hbelow
        exact ⟨e, he, by rw [hpath, hstep], List.cons_ne_nil _ _, rfl⟩
      · cases hbelow
    · cases hbelow
  · rintro ⟨e, he, hpath, hne, hbelow⟩
    refine ⟨e, he, ?_⟩
    obtain ⟨next, rest, hcons⟩ := List.exists_cons_of_ne_nil hne
    rw [hcons] at hpath hbelow
    simp [hpath, hbelow]

namespace Schema

/-- The entries stand at declared fields of a struct, or of what it embeds. -/
def Fits (s : Schema) (type : TypeId) (entries : List Plan.Entry) : Prop :=
  ∀ e ∈ entries, ∃ address site, s.Reaches (s.fieldsOf type) address site ∧ e.path = site.path ∧
    site.declaration.role? = some (.entry e.target) ∧ e.query = site.declaration.query?

variable {s : Schema} {type inner : TypeId} {entries : List Plan.Entry} {e twin : Plan.Entry}
  {d : Declaration} {name : String}

theorem fits_plan {plan : Plan} (h : s.plan type = .ok plan) : s.Fits type plan.entries := by
  intro e he
  obtain ⟨address, site, target, hsite, -, hrole, rfl⟩ := makes_of_mem_plan h e he
  exact ⟨address, site, hsite, List.nil_append _, hrole, rfl⟩

theorem eq_of_name_eq (hnames : s.DistinctNames) {other : Declaration} (hd : d ∈ s.fieldsOf type)
    (hother : other ∈ s.fieldsOf type) (h : d.name = other.name) : d = other :=
  List.inj_on_of_nodup_map (hnames type) hd hother h

theorem Fits.own (h : s.Fits type entries) (he : e ∈ entries) (hpath : e.path = [name]) :
    ∃ d ∈ s.fieldsOf type, d.name = name ∧ d.role? = some (.entry e.target) ∧ e.query = d.query? := by
  obtain ⟨address, site, hsite, heq, hrole, hquery⟩ := h e he
  rw [hpath] at heq
  cases hsite with
  | here hd =>
    obtain ⟨rfl, -⟩ := List.cons.inj heq
    exact ⟨_, List.mem_of_getElem? hd, rfl, hrole, hquery⟩
  | inside hd hembeds hbelow =>
    obtain ⟨-, hnil⟩ := List.cons.inj heq
    exact absurd hnil.symm hbelow.path_ne_nil

theorem Fits.through (h : s.Fits type entries) (he : e ∈ entries) {path : List String}
    (hpath : e.path = name :: path) (hne : path ≠ []) :
    ∃ d ∈ s.fieldsOf type, d.name = name ∧ ∃ inner address site, d.Embeds inner ∧
      s.Reaches (s.fieldsOf inner) address site ∧ path = site.path ∧
      site.declaration.role? = some (.entry e.target) ∧ e.query = site.declaration.query? := by
  obtain ⟨address, site, hsite, heq, hrole, hquery⟩ := h e he
  rw [hpath] at heq
  cases hsite with
  | here hd =>
    obtain ⟨-, hnil⟩ := List.cons.inj heq
    exact absurd hnil hne
  | @inside fields i d inner address site hd hembeds hbelow =>
    obtain ⟨rfl, hrest⟩ := List.cons.inj heq
    exact ⟨d, List.mem_of_getElem? hd, rfl, inner, address, site, hembeds, hbelow, hrest, hrole, hquery⟩

theorem Fits.below (h : s.Fits type entries) (hnames : s.DistinctNames) (hd : d ∈ s.fieldsOf type)
    (hembeds : d.Embeds inner) : s.Fits inner (Plan.below d.name entries) := by
  intro below hbelow
  obtain ⟨e, he, hpath, hne, heq⟩ := Plan.mem_below_iff.1 hbelow
  obtain ⟨other, hother, hname, type, address, site, hothers, hsite, hrest, hrole, hquery⟩ :=
    h.through he hpath hne
  obtain rfl := eq_of_name_eq hnames hother hd hname
  have htype : type = inner := by
    have hshape := hothers.2.symm.trans hembeds.2
    exact Shape.struct.inj hshape
  subst htype
  rw [heq]
  exact ⟨address, site, hsite, hrest, hrole, hquery⟩

theorem Fits.path_ne (h : s.Fits type entries) (hnames : s.DistinctNames) (hd : d ∈ s.fieldsOf type)
    (hembeds : d.Embeds inner) (he : e ∈ entries) : e.path ≠ [d.name] := by
  intro hpath
  obtain ⟨other, hother, hname, hrole, -⟩ := h.own he hpath
  obtain rfl := eq_of_name_eq hnames hother hd hname
  rw [Declaration.embeds_iff_role?.1 hembeds] at hrole
  cases hrole

/-- No entry is found through the field of another. -/
theorem Fits.path_eq (h : s.Fits type entries) (hnames : s.DistinctNames) (he : e ∈ entries)
    (hpath : e.path = [name]) {path : List String} (htwin : twin ∈ entries)
    (hrest : twin.path = name :: path) : path = [] := by
  by_contra hne
  obtain ⟨other, hother, hname, inner, -, -, hembeds, -⟩ := h.through htwin hrest hne
  exact h.path_ne hnames hother hembeds he (hname.symm ▸ hpath)

theorem Fits.target_eq (h : s.Fits type entries) (hnames : s.DistinctNames) (he : e ∈ entries)
    (hpath : e.path = [name]) (htwin : twin ∈ entries) (hsame : twin.path = [name]) :
    twin.target = e.target ∧ twin.query = e.query := by
  obtain ⟨d, hd, hname, hrole, hquery⟩ := h.own he hpath
  obtain ⟨other, hother, hothername, hotherrole, hotherquery⟩ := h.own htwin hsame
  obtain rfl := eq_of_name_eq hnames hd hother (hname.trans hothername.symm)
  rw [hrole] at hotherrole
  obtain heq := Role.entry.inj (Option.some.inj hotherrole)
  exact ⟨heq.symm, hotherquery.trans hquery.symm⟩

end Schema

end Criteria
