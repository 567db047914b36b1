import Criteria.Plan.OfSchema
import Criteria.Proofs.Address
import Criteria.Proofs.DeclarationRules

set_option autoImplicit false

namespace Criteria

def Declaration.Embeds (d : Declaration) (inner : TypeId) : Prop :=
  d.embedded = true ∧ d.shape.required = .struct inner

namespace Schema

/-- The structs entered on the way, outermost first, the names of the fields down to the
declaration, and the declaration itself. -/
structure Site where
  types : List TypeId
  path : List String
  declaration : Declaration

inductive Reaches (s : Schema) : List Declaration → Address → Site → Prop where
  | here {fields : List Declaration} {i : Nat} {d : Declaration} (h : fields[i]? = some d) :
    Reaches s fields [i] ⟨[], [d.name], d⟩
  | inside {fields : List Declaration} {i : Nat} {d : Declaration} {inner : TypeId}
      {address : Address} {site : Site} (h : fields[i]? = some d) (hembeds : d.Embeds inner)
      (hsite : Reaches s (s.fieldsOf inner) address site) :
    Reaches s fields (i :: address) ⟨inner :: site.types, d.name :: site.path, site.declaration⟩

variable {s : Schema} {fields : List Declaration} {address : Address} {site : Site}
  {d : Declaration}

theorem Reaches.address_ne_nil (h : s.Reaches fields address site) : address ≠ [] := by
  cases h <;> simp

theorem Reaches.path_ne_nil (h : s.Reaches fields address site) : site.path ≠ [] := by
  cases h <;> simp

theorem not_reaches_nil : ¬ s.Reaches [] address site := by
  intro h
  cases h <;> simp_all

/-- Below the first of several declarations stand the declaration itself and, if it is embedded, the
sites of its struct. -/
theorem reaches_zero_iff :
    s.Reaches (d :: fields) (0 :: address) site ↔
      (address = [] ∧ site = ⟨[], [d.name], d⟩) ∨
        ∃ inner below, d.Embeds inner ∧ s.Reaches (s.fieldsOf inner) address below ∧
          site = ⟨inner :: below.types, d.name :: below.path, below.declaration⟩ := by
  constructor
  · intro h
    cases h with
    | here h =>
      obtain rfl := Option.some.inj h
      exact .inl ⟨rfl, rfl⟩
    | inside h hembeds hsite =>
      obtain rfl := Option.some.inj h
      exact .inr ⟨_, _, hembeds, hsite, rfl⟩
  · rintro (⟨rfl, rfl⟩ | ⟨inner, below, hembeds, hsite, rfl⟩)
    · exact .here rfl
    · exact .inside rfl hembeds hsite

theorem reaches_succ_iff {i : Nat} :
    s.Reaches (d :: fields) ((i + 1) :: address) site ↔ s.Reaches fields (i :: address) site := by
  constructor
  · intro h
    cases h with
    | here h => exact .here (by simpa using h)
    | inside h hembeds hsite => exact .inside (by simpa using h) hembeds hsite
  · intro h
    cases h with
    | here h => exact .here (by simpa using h)
    | inside h hembeds hsite => exact .inside (by simpa using h) hembeds hsite

theorem Reaches.declared {type : TypeId} (h : s.Reaches fields address site)
    (hfields : fields = s.fieldsOf type) : ∃ owner, site.declaration ∈ s.fieldsOf owner := by
  induction h generalizing type with
  | here h => exact ⟨type, hfields ▸ List.mem_of_getElem? h⟩
  | inside h hembeds hsite ih => exact ih rfl

end Schema

namespace Declaration

variable {d : Declaration}

theorem isDeclared_of_embedded (h : d.embedded = true) : d.isDeclared = true := by
  simp [isDeclared, h]

theorem embeds_iff_role? {inner : TypeId} : d.Embeds inner ↔ d.role? = some (.embeds inner) := by
  unfold Embeds role?
  by_cases hembedded : d.embedded = true
  · simp [hembedded, ← Shape.embedded?_eq_some_iff]
  · simp only [hembedded, false_and, Bool.false_eq_true, ↓reduceIte, false_iff]
    split <;> simp

theorem role?_eq_column_iff {column : String} :
    d.role? = some (.entry (.column column)) ↔
      d.embedded = false ∧ d.queryToken ≠ "or" ∧ d.column? = some column := by
  unfold role?
  by_cases hembedded : d.embedded = true
  · simp [hembedded]
  · by_cases hor : d.isOr = true
    · simp [hembedded, hor, isOr_iff.1 hor]
    · simp [hembedded, hor, mt isOr_iff.2 hor]

theorem role?_eq_group_iff {type : TypeId} :
    d.role? = some (.entry (.group type)) ↔
      d.embedded = false ∧ d.queryToken = "or" ∧ d.shape.alternatives? = some type := by
  unfold role?
  by_cases hembedded : d.embedded = true
  · simp [hembedded]
  · by_cases hor : d.isOr = true
    · simp [hembedded, hor, isOr_iff.1 hor]
    · simp [hembedded, hor, mt isOr_iff.2 hor]

theorem not_embedded_of_undeclared (h : d.isDeclared = false) : d.embedded = false := by
  cases hembedded : d.embedded with
  | false => rfl
  | true => simp [isDeclared_of_embedded hembedded] at h

theorem role?_ne_none (h : d.fault? = none) : d.role? ≠ none :=
  Option.isSome_iff_ne_none.1 (role?_isSome_of_fault?_eq_none h)

/-- What has a role is declared. -/
theorem isDeclared_of_role? {role : Role} (h : d.role? = some role) : d.isDeclared = true := by
  cases role with
  | embeds inner => exact isDeclared_of_embedded (embeds_iff_role?.2 h).1
  | entry target =>
    cases target with
    | column column => simp [isDeclared, (role?_eq_column_iff.1 h).2.2]
    | group type => simp [isDeclared, (role?_eq_group_iff.1 h).2.1]

theorem not_embedded_of_entry {target : Target} (h : d.role? = some (.entry target)) :
    d.embedded = false := by
  cases target with
  | column column => exact (role?_eq_column_iff.1 h).1
  | group type => exact (role?_eq_group_iff.1 h).1

end Declaration

end Criteria
