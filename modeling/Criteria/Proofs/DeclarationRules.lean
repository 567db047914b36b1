import Criteria.Schema.Rules

set_option autoImplicit false

namespace Criteria

/-- The place of a rule among the rules; the three on shapes exclude one another and share one. -/
def Fault.rank : Fault → Nat
  | .embeddedWithColumn => 0
  | .orWithColumn => 1
  | .orNotStruct _ => 2
  | .missingColumn => 3
  | .membershipNotList _ _ | .equalityOnList | .likeNotText _ => 4
  | .unknownQuery _ => 5
  | .unknownUpdate _ => 6
  | .embeddedNotStruct _ => 7
  | .recursiveFlatten _ => 8

namespace Declaration

inductive Violates (d : Declaration) : Fault → Prop where
  | embeddedWithColumn (hembedded : d.embedded = true) (hcolumn : d.column? ≠ none) :
    Violates d .embeddedWithColumn
  | orWithColumn (hor : d.queryToken = "or") (hcolumn : d.column? ≠ none) :
    Violates d .orWithColumn
  | orNotStruct (hor : d.queryToken = "or") (hstruct : ∀ type, d.shape.required ≠ .struct type)
      (hlist : ∀ type, d.shape.required ≠ .list (.struct type)) :
    Violates d (.orNotStruct d.shape.required.kind)
  | missingColumn (hembedded : d.embedded = false) (hor : d.queryToken ≠ "or")
      (hcolumn : d.column? = none) : Violates d .missingColumn
  | membershipNotList (hquery : d.queryToken = "in" ∨ d.queryToken = "not in")
      (hlist : ∀ element, d.shape.required ≠ .list element) :
    Violates d (.membershipNotList d.queryToken d.shape.required.kind)
  | equalityOnList {element : Shape} (hquery : d.queryToken = "=")
      (hlist : d.shape.required = .list element) : Violates d .equalityOnList
  | likeNotText (hquery : d.queryToken = "like") (htext : d.shape.required ≠ .text)
      (hany : d.shape.required ≠ .any) : Violates d (.likeNotText d.shape.required.kind)
  | unknownQuery (hwritten : d.queryToken ≠ "")
      (hquery : ∀ op : QueryOp, op.token ≠ d.queryToken) :
    Violates d (.unknownQuery d.queryToken)
  | unknownUpdate (hwritten : d.updateToken ≠ "")
      (hupdate : ∀ op : UpdateOp, op.token ≠ d.updateToken) :
    Violates d (.unknownUpdate d.updateToken)
  | embeddedNotStruct (hembedded : d.embedded = true)
      (hstruct : ∀ type, d.shape.required ≠ .struct type) :
    Violates d (.embeddedNotStruct d.shape.required.kind)

end Declaration

theorem QueryOp.ofToken?_eq_some_iff {token : String} {op : QueryOp} (h : token ≠ "") :
    QueryOp.ofToken? token = some op ↔ op.token = token := by
  constructor
  · intro hop
    unfold QueryOp.ofToken? at hop
    split at hop <;> cases hop <;> first | rfl | exact absurd rfl h
  · rintro rfl
    exact QueryOp.ofToken?_token op

theorem UpdateOp.ofToken?_eq_some_iff {token : String} {op : UpdateOp} :
    UpdateOp.ofToken? token = some op ↔ op.token = token := by
  constructor
  · intro hop
    unfold UpdateOp.ofToken? at hop
    split at hop <;> cases hop <;> rfl
  · rintro rfl
    exact UpdateOp.ofToken?_token op

theorem Shape.struct?_eq_some_iff {s : Shape} {type : TypeId} :
    s.struct? = some type ↔ s = .struct type := by
  cases s <;> simp [Shape.struct?, eq_comm]

theorem Shape.isList_iff {s : Shape} : s.isList = true ↔ ∃ element, s = .list element := by
  cases s <;> simp [Shape.isList]

theorem Shape.embedded?_eq_some_iff {s : Shape} {type : TypeId} :
    s.embedded? = some type ↔ s.required = .struct type :=
  Shape.struct?_eq_some_iff

theorem Shape.alternatives?_eq_some_iff {s : Shape} {type : TypeId} :
    s.alternatives? = some type ↔ s.required = .struct type ∨ s.required = .list (.struct type) := by
  unfold Shape.alternatives?
  split <;> simp_all [Shape.struct?_eq_some_iff]

theorem Shape.alternatives?_eq_none_iff {s : Shape} :
    s.alternatives? = none ↔ (∀ type, s.required ≠ .struct type) ∧
      ∀ type, s.required ≠ .list (.struct type) := by
  simp only [Option.eq_none_iff_forall_ne_some, ne_eq, Shape.alternatives?_eq_some_iff, not_or,
    forall_and]

theorem Shape.embedded?_eq_none_iff {s : Shape} :
    s.embedded? = none ↔ ∀ type, s.required ≠ .struct type := by
  simp only [Option.eq_none_iff_forall_ne_some, ne_eq, Shape.embedded?_eq_some_iff]

namespace Declaration

variable {d : Declaration}

theorem query?_eq_some_iff {op : QueryOp} : d.query? = some op ↔ op.token = d.queryToken := by
  unfold query?
  split
  · rename_i hempty
    rw [hempty]
    cases op <;> simp [QueryOp.token]
  · rename_i hwritten
    exact QueryOp.ofToken?_eq_some_iff hwritten

theorem update?_eq_some_iff {op : UpdateOp} : d.update? = some op ↔ op.token = d.updateToken := by
  unfold update?
  split
  · rename_i hempty
    rw [hempty]
    cases op <;> simp [UpdateOp.token]
  · exact UpdateOp.ofToken?_eq_some_iff

theorem query?_eq_none_iff : d.query? = none ↔ ∀ op : QueryOp, op.token ≠ d.queryToken := by
  rw [Option.eq_none_iff_forall_ne_some]
  simp only [ne_eq, query?_eq_some_iff]

theorem update?_eq_none_iff : d.update? = none ↔ ∀ op : UpdateOp, op.token ≠ d.updateToken := by
  rw [Option.eq_none_iff_forall_ne_some]
  simp only [ne_eq, update?_eq_some_iff]

theorem isOr_iff : d.isOr = true ↔ d.queryToken = "or" := by
  simp [isOr]

theorem violates_of_shapeFault? {fault : Fault} (h : d.shapeFault? = some fault) :
    d.Violates fault ∧ fault.rank = 4 := by
  unfold shapeFault? at h
  split at h
  · rename_i op hop
    have htoken := query?_eq_some_iff.1 hop
    dsimp only at h
    split at h
    · rename_i hrule
      obtain ⟨hmember, hlist⟩ := Bool.and_eq_true_iff.1 hrule
      obtain rfl := Option.some.inj h
      rw [htoken]
      refine ⟨.membershipNotList ?_ ?_, rfl⟩
      · rw [← htoken]
        cases op <;> first | exact .inl rfl | exact .inr rfl | cases hmember
      · intro element heq
        simp [heq, Shape.isList] at hlist
    · split at h
      · rename_i hrule
        obtain ⟨rfl, hlist⟩ := hrule
        obtain ⟨element, helement⟩ := Shape.isList_iff.1 hlist
        obtain rfl := Option.some.inj h
        exact ⟨.equalityOnList htoken.symm helement, rfl⟩
      · split at h
        · rename_i hrule
          obtain ⟨rfl, htext, hany⟩ := hrule
          obtain rfl := Option.some.inj h
          exact ⟨.likeNotText htoken.symm htext hany, rfl⟩
        · cases h
  · cases h

theorem shapeFault?_of_violates {fault : Fault} (h : d.Violates fault) (hrank : fault.rank = 4) :
    d.shapeFault? = some fault := by
  cases h with
  | membershipNotList hquery hlist =>
    have hnot : d.shape.required.isList = false :=
      Bool.eq_false_iff.2 fun h => (Shape.isList_iff.1 h).elim hlist
    rcases hquery with hquery | hquery
    · have hop : d.query? = some .among := query?_eq_some_iff.2 hquery.symm
      simp [shapeFault?, hop, QueryOp.isMembership, hnot, hquery, QueryOp.token]
    · have hop : d.query? = some .notAmong := query?_eq_some_iff.2 hquery.symm
      simp [shapeFault?, hop, QueryOp.isMembership, hnot, hquery, QueryOp.token]
  | equalityOnList hquery hlist =>
    have hop : d.query? = some .eq := query?_eq_some_iff.2 hquery.symm
    simp [shapeFault?, hop, QueryOp.isMembership, hlist, Shape.isList]
  | likeNotText hquery htext hany =>
    have hop : d.query? = some .like := query?_eq_some_iff.2 hquery.symm
    simp [shapeFault?, hop, QueryOp.isMembership, htext, hany]
  | _ => cases hrank

/-- The rules on shapes, one for each operator that restricts them. -/
theorem shapeFault?_eq_some_iff {fault : Fault} :
    d.shapeFault? = some fault ↔ d.Violates fault ∧ fault.rank = 4 :=
  ⟨violates_of_shapeFault?, fun ⟨hviolates, hrank⟩ => shapeFault?_of_violates hviolates hrank⟩

/-- Each rule reports the faults of its place, and reports one exactly when it is broken. -/
theorem rule_eq_some_iff (d : Declaration) {place : Nat} {rule : Declaration → Option Fault}
    (h : rules[place]? = some rule) (fault : Fault) :
    rule d = some fault ↔ d.Violates fault ∧ fault.rank = place := by
  match place with
  | 0 =>
    obtain rfl := Option.some.inj h
    rw [Option.ite_none_right_eq_some, Bool.and_eq_true_iff, Option.isSome_iff_ne_none]
    constructor
    · rintro ⟨⟨hembedded, hcolumn⟩, ⟨⟩⟩
      exact ⟨.embeddedWithColumn hembedded hcolumn, rfl⟩
    · rintro ⟨hviolates, hrank⟩
      cases hviolates with
      | embeddedWithColumn hembedded hcolumn => exact ⟨⟨hembedded, hcolumn⟩, rfl⟩
      | _ => cases hrank
  | 1 =>
    obtain rfl := Option.some.inj h
    rw [Option.ite_none_right_eq_some, Bool.and_eq_true_iff, Option.isSome_iff_ne_none, isOr_iff]
    constructor
    · rintro ⟨⟨hor, hcolumn⟩, ⟨⟩⟩
      exact ⟨.orWithColumn hor hcolumn, rfl⟩
    · rintro ⟨hviolates, hrank⟩
      cases hviolates with
      | orWithColumn hor hcolumn => exact ⟨⟨hor, hcolumn⟩, rfl⟩
      | _ => cases hrank
  | 2 =>
    obtain rfl := Option.some.inj h
    rw [Option.ite_none_right_eq_some, Bool.and_eq_true_iff, Option.isNone_iff_eq_none, isOr_iff,
      Shape.alternatives?_eq_none_iff]
    constructor
    · rintro ⟨⟨hor, hstruct, hlist⟩, ⟨⟩⟩
      exact ⟨.orNotStruct hor hstruct hlist, rfl⟩
    · rintro ⟨hviolates, hrank⟩
      cases hviolates with
      | orNotStruct hor hstruct hlist => exact ⟨⟨hor, hstruct, hlist⟩, rfl⟩
      | _ => cases hrank
  | 3 =>
    obtain rfl := Option.some.inj h
    rw [Option.ite_none_right_eq_some, Bool.and_eq_true_iff, Bool.and_eq_true_iff,
      Option.isNone_iff_eq_none, Bool.not_eq_true', Bool.not_eq_true', Bool.eq_false_iff (b := d.isOr),
      ne_eq, isOr_iff]
    constructor
    · rintro ⟨⟨⟨hembedded, hor⟩, hcolumn⟩, ⟨⟩⟩
      exact ⟨.missingColumn hembedded hor hcolumn, rfl⟩
    · rintro ⟨hviolates, hrank⟩
      cases hviolates with
      | missingColumn hembedded hor hcolumn => exact ⟨⟨⟨hembedded, hor⟩, hcolumn⟩, rfl⟩
      | _ => cases hrank
  | 4 =>
    obtain rfl := Option.some.inj h
    exact shapeFault?_eq_some_iff
  | 5 =>
    obtain rfl := Option.some.inj h
    rw [Option.ite_none_right_eq_some, query?_eq_none_iff]
    constructor
    · rintro ⟨⟨hwritten, hquery⟩, ⟨⟩⟩
      exact ⟨.unknownQuery hwritten hquery, rfl⟩
    · rintro ⟨hviolates, hrank⟩
      cases hviolates with
      | unknownQuery hwritten hquery => exact ⟨⟨hwritten, hquery⟩, rfl⟩
      | _ => cases hrank
  | 6 =>
    obtain rfl := Option.some.inj h
    rw [Option.ite_none_right_eq_some, update?_eq_none_iff]
    constructor
    · rintro ⟨⟨hwritten, hupdate⟩, ⟨⟩⟩
      exact ⟨.unknownUpdate hwritten hupdate, rfl⟩
    · rintro ⟨hviolates, hrank⟩
      cases hviolates with
      | unknownUpdate hwritten hupdate => exact ⟨⟨hwritten, hupdate⟩, rfl⟩
      | _ => cases hrank
  | 7 =>
    obtain rfl := Option.some.inj h
    rw [Option.ite_none_right_eq_some, Bool.and_eq_true_iff, Option.isNone_iff_eq_none,
      Shape.embedded?_eq_none_iff]
    constructor
    · rintro ⟨⟨hembedded, hstruct⟩, ⟨⟩⟩
      exact ⟨.embeddedNotStruct hembedded hstruct, rfl⟩
    · rintro ⟨hviolates, hrank⟩
      cases hviolates with
      | embeddedNotStruct hembedded hstruct => exact ⟨⟨hembedded, hstruct⟩, rfl⟩
      | _ => cases hrank
  | (place + 8) => cases h

theorem Violates.rank_lt {fault : Fault} (h : d.Violates fault) : fault.rank < rules.length := by
  cases h <;> simp [Fault.rank, rules]

theorem Violates.rule_eq_some {fault : Fault} (h : d.Violates fault) :
    ∃ rule, rules[fault.rank]? = some rule ∧ rule d = some fault := by
  have hrule := List.getElem?_eq_getElem h.rank_lt
  exact ⟨_, hrule, (rule_eq_some_iff d hrule fault).2 ⟨h, rfl⟩⟩

theorem fault?_eq_none_iff : d.fault? = none ↔ ∀ fault, ¬ d.Violates fault := by
  rw [fault?, List.findSome?_eq_none_iff]
  constructor
  · intro hnone fault hviolates
    obtain ⟨rule, hrule, hfault⟩ := hviolates.rule_eq_some
    rw [hnone rule (List.mem_of_getElem? hrule)] at hfault
    cases hfault
  · intro hnone rule hmem
    obtain ⟨place, hrule⟩ := List.mem_iff_getElem?.1 hmem
    rw [Option.eq_none_iff_forall_ne_some]
    intro fault hfault
    exact hnone fault ((rule_eq_some_iff d hrule fault).1 hfault).1

theorem first_of_fault?_eq_some {fault : Fault} (h : d.fault? = some fault) :
    d.Violates fault ∧ ∀ other, d.Violates other → fault.rank ≤ other.rank := by
  obtain ⟨before, rule, after, heq, hfault, hbefore⟩ := List.findSome?_eq_some_iff.1 h
  have hrule : rules[before.length]? = some rule := by simp [heq]
  obtain ⟨hviolates, hrank⟩ := (rule_eq_some_iff d hrule fault).1 hfault
  refine ⟨hviolates, fun other hother => Nat.not_lt.1 fun hlt => ?_⟩
  obtain ⟨earlier, hearlier, hsome⟩ := hother.rule_eq_some
  have hmem : earlier ∈ before := by
    rw [heq, List.getElem?_append_left (by omega)] at hearlier
    exact List.mem_of_getElem? hearlier
  rw [hbefore earlier hmem] at hsome
  cases hsome

/-- The fault is the broken rule that is tried first. -/
theorem fault?_eq_some_iff {fault : Fault} :
    d.fault? = some fault ↔
      d.Violates fault ∧ ∀ other, d.Violates other → fault.rank ≤ other.rank := by
  constructor
  · exact first_of_fault?_eq_some
  · rintro ⟨hviolates, hfirst⟩
    cases hd : d.fault? with
    | none => exact absurd hviolates (fault?_eq_none_iff.1 hd fault)
    | some found =>
      obtain ⟨hfound, hleast⟩ := first_of_fault?_eq_some hd
      have hrank : found.rank = fault.rank :=
        Nat.le_antisymm (hleast fault hviolates) (hfirst found hfound)
      obtain ⟨rule, hrule, hrulefault⟩ := hviolates.rule_eq_some
      rw [← hrulefault, ← (rule_eq_some_iff d hrule found).2 ⟨hfound, hrank⟩]

end Declaration

end Criteria
