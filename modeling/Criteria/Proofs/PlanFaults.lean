import Criteria.Proofs.Sites

set_option autoImplicit false

namespace Criteria.Schema

inductive Offends (s : Schema) (chain : List TypeId) (d : Declaration) : Fault → Prop where
  | rule {fault : Fault} (h : d.Violates fault) : Offends s chain d fault
  | recursion {inner : TypeId} (hembeds : d.Embeds inner) (hchain : inner ∈ chain) :
    Offends s chain d (.recursiveFlatten (s.nameOf inner))

/-- The fault of a declared field whose rule is tried first. -/
structure FaultOn (s : Schema) (chain : List TypeId) (d : Declaration) (fault : Fault) : Prop where
  declared : d.isDeclared = true
  offends : s.Offends chain d fault
  first : ∀ other, s.Offends chain d other → fault.rank ≤ other.rank

/-- The errors of the sites of some declarations, which stand below `chain` and `path`. Each names
its field by the dotted path from the root. -/
def Offence (s : Schema) (chain : List TypeId) (path : List String) (fields : List Declaration)
    (address : Address) (e : Error) : Prop :=
  ∃ site fault, s.Reaches fields address site ∧
    s.FaultOn (chain ++ site.types) site.declaration fault ∧
    e = .declaration (String.intercalate "." (path ++ site.path)) fault

def HeadOffence (s : Schema) (chain : List TypeId) (path : List String) (d : Declaration)
    (address : Address) (e : Error) : Prop :=
  (address = [] ∧ ∃ fault, s.FaultOn chain d fault ∧
    e = .declaration (String.intercalate "." (path ++ [d.name])) fault) ∨
  ∃ inner, d.Embeds inner ∧
    s.Offence (chain ++ [inner]) (path ++ [d.name]) (s.fieldsOf inner) address e

variable {s : Schema} {chain : List TypeId} {path : List String} {d : Declaration}

theorem not_offence_root (fields : List Declaration) (e : Error) :
    ¬ s.Offence chain path fields [] e := by
  rintro ⟨site, fault, hsite, -, -⟩
  exact hsite.address_ne_nil rfl

theorem not_offence_nil (address : Address) (e : Error) : ¬ s.Offence chain path [] address e := by
  rintro ⟨site, fault, hsite, -, -⟩
  exact not_reaches_nil hsite

theorem offence_zero_iff (rest : List Declaration) (address : Address) (e : Error) :
    s.Offence chain path (d :: rest) (0 :: address) e ↔ s.HeadOffence chain path d address e := by
  constructor
  · rintro ⟨site, fault, hsite, hfault, rfl⟩
    rcases reaches_zero_iff.1 hsite with ⟨rfl, rfl⟩ | ⟨inner, below, hembeds, hbelow, rfl⟩
    · exact .inl ⟨rfl, fault, by simpa using hfault, rfl⟩
    · exact .inr ⟨inner, hembeds, below, fault, hbelow, by simpa using hfault, by simp⟩
  · rintro (⟨rfl, fault, hfault, rfl⟩ | ⟨inner, hembeds, below, fault, hbelow, hfault, rfl⟩)
    · exact ⟨⟨[], [d.name], d⟩, fault, reaches_zero_iff.2 (.inl ⟨rfl, rfl⟩), by simpa using hfault,
        rfl⟩
    · exact ⟨⟨inner :: below.types, d.name :: below.path, below.declaration⟩, fault,
        reaches_zero_iff.2 (.inr ⟨inner, below, hembeds, hbelow, rfl⟩), by simpa using hfault,
        by simp⟩

theorem splits_offence (rest : List Declaration) :
    Splits (s.Offence chain path (d :: rest)) (s.HeadOffence chain path d)
      (s.Offence chain path rest) where
  none := not_offence_root _
  zero := offence_zero_iff rest
  succ := by
    intro i address e
    simp only [Offence, reaches_succ_iff]
  tailNone := not_offence_root rest

/-- A broken rule comes before the refusal of a recursive struct. -/
theorem faultOn_iff_of_fault? {fault : Fault} (hdeclared : d.isDeclared = true)
    (h : d.fault? = some fault) (other : Fault) : s.FaultOn chain d other ↔ other = fault := by
  obtain ⟨hviolates, hleast⟩ := Declaration.fault?_eq_some_iff.1 h
  constructor
  · rintro ⟨-, hoffends, hfirst⟩
    cases hoffends with
    | rule hother =>
      have hfault : d.fault? = some other :=
        Declaration.fault?_eq_some_iff.2 ⟨hother, fun f hf => hfirst f (.rule hf)⟩
      exact Option.some.inj (hfault.symm.trans h)
    | recursion =>
      have hlt := hviolates.rank_lt
      have hle := hfirst fault (.rule hviolates)
      exact absurd (Nat.lt_of_le_of_lt hle hlt) (Nat.lt_irrefl _)
  · rintro rfl
    refine ⟨hdeclared, .rule hviolates, fun f hf => ?_⟩
    cases hf with
    | rule hf => exact hleast f hf
    | recursion => exact Nat.le_of_lt hviolates.rank_lt

theorem faultOn_iff_of_recursion {inner : TypeId} (h : d.fault? = none) (hembeds : d.Embeds inner)
    (hchain : inner ∈ chain) (other : Fault) :
    s.FaultOn chain d other ↔ other = .recursiveFlatten (s.nameOf inner) := by
  have hnone := Declaration.fault?_eq_none_iff.1 h
  constructor
  · rintro ⟨-, hoffends, -⟩
    cases hoffends with
    | rule hother => exact absurd hother (hnone other)
    | recursion hembeds' =>
      obtain rfl := Shape.struct.inj (hembeds.2.symm.trans hembeds'.2)
      rfl
  · rintro rfl
    refine ⟨Declaration.isDeclared_of_embedded hembeds.1, .recursion hembeds hchain, fun f hf => ?_⟩
    cases hf with
    | rule hf => exact absurd hf (hnone f)
    | recursion => exact Nat.le_refl _

theorem not_faultOn (h : d.fault? = none) (hchain : ∀ inner, d.Embeds inner → inner ∉ chain)
    (fault : Fault) : ¬ s.FaultOn chain d fault := by
  rintro ⟨-, hoffends, -⟩
  cases hoffends with
  | rule hfault => exact Declaration.fault?_eq_none_iff.1 h fault hfault
  | recursion hembeds hmem => exact hchain _ hembeds hmem

/-- A field with a fault of its own fails at once, whatever it embeds. -/
theorem failsFirst_of_faultOn {α : Type} {rest : List Declaration} {fault : Fault}
    (h : ∀ other, s.FaultOn chain d other ↔ other = fault) :
    FailsFirst (s.Offence chain path (d :: rest))
      (.error (.declaration (String.intercalate "." (path ++ [d.name])) fault) : Except Error α) := by
  have hhead : FailsFirst (s.HeadOffence chain path d)
      (.error (.declaration (String.intercalate "." (path ++ [d.name])) fault) : Except Error α) := by
    refine FailsFirst.of_root fun e => ?_
    simp only [HeadOffence, h, not_offence_root, and_false, exists_false, or_false, true_and,
      exists_eq_left]
  exact FailsFirst.of_head (splits_offence rest) hhead

theorem not_headOffence (hfault : ∀ fault, ¬ s.FaultOn chain d fault)
    (hembeds : ∀ inner, ¬ d.Embeds inner) (address : Address) (e : Error) :
    ¬ s.HeadOffence chain path d address e := by
  rintro (⟨-, fault, h, -⟩ | ⟨inner, h, -⟩)
  · exact hfault fault h
  · exact hembeds inner h

theorem headOffence_iff {inner : TypeId} (h : d.fault? = none)
    (hrole : d.role? = some (.embeds inner)) (hchain : inner ∉ chain) (address : Address) (e : Error) :
    s.HeadOffence chain path d address e ↔
      s.Offence (chain ++ [inner]) (path ++ [d.name]) (s.fieldsOf inner) address e := by
  have hembeds := Declaration.embeds_iff_role?.2 hrole
  have hunique : ∀ other, d.Embeds other → other = inner := fun other hother =>
    Shape.struct.inj (hother.2.symm.trans hembeds.2)
  constructor
  · rintro (⟨-, fault, hfault, -⟩ | ⟨other, hother, hoffence⟩)
    · refine absurd hfault (not_faultOn h (fun other hother => ?_) fault)
      rwa [hunique other hother]
    · rwa [hunique other hother] at hoffence
  · exact fun hoffence => .inr ⟨inner, hembeds, hoffence⟩

/-- The walk over declarations fails with the first offence, whatever is already done. -/
theorem failsFirst_entriesOf (s : Schema) (chain : List TypeId) (path : List String)
    (fields : List Declaration) (done : List Plan.Entry) :
    FailsFirst (s.Offence chain path fields) (s.entriesOf chain path fields done) := by
  fun_induction s.entriesOf chain path fields done with
  | case1 => exact FailsFirst.of_none not_offence_nil _
  | case2 chain path d rest done hdeclared ih =>
    have hnot : ¬ d.isDeclared = true := by simpa using hdeclared
    refine FailsFirst.of_tail (splits_offence rest) (not_headOffence ?_ ?_) ih
    · exact fun fault hfault => hnot hfault.declared
    · exact fun inner hembeds => hnot (Declaration.isDeclared_of_embedded hembeds.1)
  | case3 chain path d rest done here fail hdeclared fault hfault =>
    have hd : d.isDeclared = true := by simpa using hdeclared
    exact failsFirst_of_faultOn (faultOn_iff_of_fault? hd hfault)
  | case4 chain path d rest done here fail hdeclared hrole hfault =>
    exact absurd hrole (Declaration.role?_ne_none hfault)
  | case5 chain path d rest done here hdeclared target hrole hfault ih =>
    have hembeds : ∀ inner, ¬ d.Embeds inner := fun inner h => by
      rw [Declaration.embeds_iff_role?, hrole] at h
      cases h
    refine FailsFirst.of_tail (splits_offence rest) (not_headOffence ?_ hembeds) ih
    exact not_faultOn hfault fun inner h => absurd h (hembeds inner)
  | case6 chain path d rest done here fail hdeclared inner hrole hfault hchain =>
    exact failsFirst_of_faultOn
      (faultOn_iff_of_recursion hfault (Declaration.embeds_iff_role?.2 hrole) hchain)
  | case7 chain path d rest done here hdeclared inner hrole hfault hchain e herror ih =>
    rw [herror] at ih
    exact FailsFirst.of_head (splits_offence rest) (ih.congr (headOffence_iff hfault hrole hchain))
  | case8 chain path d rest done here hdeclared inner hrole hfault hchain found hfound ihinner ih =>
    -- The embedded struct was walked without an offence, so the offences are those of the rest.
    rw [hfound] at ihinner
    have hinner := ihinner.congr (headOffence_iff hfault hrole hchain)
    exact FailsFirst.of_tail (splits_offence rest) (hinner.ok_iff.1 ⟨found, rfl⟩) ih

theorem not_faultOn_iff (hdeclared : d.isDeclared = true) :
    (∀ fault, ¬ s.FaultOn chain d fault) ↔
      (∀ fault, ¬ d.Violates fault) ∧
      (d.embedded = true → ∃ inner, d.shape.required = .struct inner ∧ inner ∉ chain) := by
  constructor
  · intro hnone
    have hfault : d.fault? = none := by
      rw [Option.eq_none_iff_forall_ne_some]
      intro fault hfault
      exact hnone fault ((faultOn_iff_of_fault? hdeclared hfault fault).2 rfl)
    have hviolates := Declaration.fault?_eq_none_iff.1 hfault
    refine ⟨hviolates, fun hembedded => ?_⟩
    by_cases hstruct : ∃ inner, d.shape.required = .struct inner
    · obtain ⟨inner, hinner⟩ := hstruct
      refine ⟨inner, hinner, fun hchain => ?_⟩
      exact hnone _ ((faultOn_iff_of_recursion hfault ⟨hembedded, hinner⟩ hchain _).2 rfl)
    · refine absurd (.embeddedNotStruct hembedded fun type htype => ?_) (hviolates _)
      exact hstruct ⟨type, htype⟩
  · rintro ⟨hviolates, hembedded⟩
    refine not_faultOn (Declaration.fault?_eq_none_iff.2 hviolates) fun inner hinner => ?_
    obtain ⟨other, hother, hchain⟩ := hembedded hinner.1
    obtain rfl := Shape.struct.inj (hinner.2.symm.trans hother)
    exact hchain

theorem not_offence_iff (chain : List TypeId) (path : List String) (fields : List Declaration) :
    (∀ address e, ¬ s.Offence chain path fields address e) ↔
      ∀ address site, s.Reaches fields address site → site.declaration.isDeclared = true →
        ∀ fault, ¬ s.FaultOn (chain ++ site.types) site.declaration fault := by
  constructor
  · intro hnone address site hsite _ fault hfault
    exact hnone address _ ⟨site, fault, hsite, hfault, rfl⟩
  · rintro hnone address e ⟨site, fault, hsite, hfault, -⟩
    exact hnone address site hsite hfault.declared fault hfault

/-- A plan exists exactly when every declared site keeps the rules, every embedded one is a struct,
and none comes back to a struct on the way to it. Otherwise the error is the first offence. -/
theorem plan_failsFirst (s : Schema) (root : TypeId) :
    ((∃ plan, s.plan root = .ok plan) ↔
      ∀ address site, s.Reaches (s.fieldsOf root) address site →
        site.declaration.isDeclared = true →
        (∀ fault, ¬ site.declaration.Violates fault) ∧
        (site.declaration.embedded = true →
          ∃ inner, site.declaration.shape.required = .struct inner ∧
            inner ∉ root :: site.types)) ∧
    ∀ e, s.plan root = .error e ↔ First (s.Offence [root] [] (s.fieldsOf root)) e := by
  have h := (failsFirst_entriesOf s [root] [] (s.fieldsOf root) []).map (Plan.mk root)
  refine ⟨?_, h.error_iff⟩
  refine h.ok_iff.trans ((not_offence_iff [root] [] (s.fieldsOf root)).trans ?_)
  constructor
  · intro hnone address site hsite hdeclared
    exact (not_faultOn_iff hdeclared).1 (hnone address site hsite hdeclared)
  · intro hkeeps address site hsite hdeclared
    exact (not_faultOn_iff hdeclared).2 (hkeeps address site hsite hdeclared)

-- Two siblings embed one struct, and the alternatives are of the type that they occur in.
example :
    let period (name : String) : Declaration := { name := name, shape := .struct 1, embedded := true }
    let any : Declaration :=
      { name := "any", shape := .list (.struct 0), annotations := { query := some "or" } }
    let limit : Declaration :=
      { name := "limit", shape := .int, annotations := { column := some "limit" } }
    let s : Schema := ⟨[⟨"Search", [period "from", period "to", any]⟩, ⟨"Period", [limit]⟩]⟩
    (s.plan 0).map Plan.order = .ok ["limit", "any"] := by
  cbv

end Criteria.Schema
