import Criteria.Proofs.Conformance

set_option autoImplicit false

namespace Criteria

theorem Json.isNull_iff {json : Json} : json.isNull = true ↔ json = .null := by
  cases json <;> simp [isNull]

namespace Value

def inmost : Value → Value
  | .present inner => inmost inner
  | other => other

def presence : Value → Nat
  | .present inner => presence inner + 1
  | _ => 0

variable {value : Value} {type : TypeId} {fields : List (String × Value)}

theorem bare_eq_record_iff :
    value.bare = .record type fields ↔ value.inmost = .record type fields ∧ value.presence ≤ 1 := by
  cases value with
  | present inner => cases inner <;> simp [bare, inmost, presence]
  | _ => simp [bare, inmost, presence]

theorem isEmpty_of_inmost_eq_record (h : value.inmost = .record type fields) :
    value.isEmpty = false := by
  cases value <;> simp_all [inmost, isEmpty]

@[simp]
theorem toJson_bare (value : Value) : value.bare.toJson = value.toJson := by
  cases value with
  | present inner => rw [bare, toJson]
  | _ => rfl

theorem ofSerialized_of_record (h : value.bare = .record type fields)
    (outcome : Except String Json) :
    value.ofSerialized outcome = .document (outcome.map Json.withoutNulls) := by
  rw [ofSerialized, isEmpty_of_bare_eq_record h, h]
  rfl

theorem ofSerialized_of_ne_record (hset : value.isEmpty = false)
    (h : ∀ type fields, value.bare ≠ .record type fields) (outcome : Except String Json) :
    value.ofSerialized outcome = .document outcome := by
  have hnone : value.bare.record?.isSome = false := by
    cases hrecord : value.bare.record? with
    | none => rfl
    | some r => exact absurd (record?_eq_some_iff.1 hrecord) (h r.type r.fields)
  rw [ofSerialized, hset, hnone]
  rfl

theorem ofSerialized_of_isEmpty (h : value.isEmpty = true) (outcome : Except String Json) :
    value.ofSerialized outcome = value := by
  rw [ofSerialized, if_pos h]

/-- A set field is stored as a document, which failed to serialize if the value did. -/
theorem exists_stored (hset : value.isEmpty = false) (outcome : Except String Json) :
    ∃ stored, value.ofSerialized outcome = .document stored ∧
      ∀ message, stored = .error message ↔ outcome = .error message := by
  by_cases hrecord : ∃ type fields, value.bare = .record type fields
  · obtain ⟨type, fields, h⟩ := hrecord
    exact ⟨_, ofSerialized_of_record h outcome, fun message => map_eq_error⟩
  · refine ⟨outcome, ofSerialized_of_ne_record hset (fun type fields h => ?_) outcome, fun _ => Iff.rfl⟩
    exact hrecord ⟨type, fields, h⟩

theorem isEmpty_ofSerialized (value : Value) (outcome : Except String Json) :
    (value.ofSerialized outcome).isEmpty = value.isEmpty := by
  cases hempty : value.isEmpty with
  | true => rw [ofSerialized_of_isEmpty hempty, hempty]
  | false =>
    obtain ⟨stored, hstored, -⟩ := exists_stored hempty outcome
    rw [hstored]
    rfl

theorem bare_ofSerialized_ne_record (value : Value) (outcome : Except String Json) (type : TypeId)
    (fields : List (String × Value)) : (value.ofSerialized outcome).bare ≠ .record type fields := by
  intro h
  cases hempty : value.isEmpty with
  | true =>
    rw [ofSerialized_of_isEmpty hempty] at h
    cases hempty.symm.trans (isEmpty_of_bare_eq_record h)
  | false =>
    obtain ⟨stored, hstored, -⟩ := exists_stored hempty outcome
    rw [hstored] at h
    cases h

/-- The members that are stored for a struct: without the null ones under at most one level of presence,
and all of them under more. -/
theorem exists_kept (h : value.inmost = .record type fields) (members : List (String × Json)) :
    ∃ kept, value.ofSerialized (.ok (.object members)) = .document (.ok (.object kept)) ∧
      kept.Sublist members ∧ (∀ member ∈ members, member.2 ≠ .null → member ∈ kept) ∧
      (value.presence ≤ 1 → ∀ member ∈ kept, member.2 ≠ .null) ∧
      (1 < value.presence → kept = members) := by
  by_cases hpresence : value.presence ≤ 1
  · have hbare := bare_eq_record_iff.2 ⟨h, hpresence⟩
    refine ⟨_, ofSerialized_of_record hbare _, List.filter_sublist, fun member hmem hne => ?_,
      fun _ member hmem => ?_, fun hmore => absurd hpresence (Nat.not_le.2 hmore)⟩
    · exact List.mem_filter.2 ⟨hmem, by simpa [← Json.isNull_iff] using hne⟩
    · simpa [← Json.isNull_iff] using (List.mem_filter.1 hmem).2
  · have hbare : ∀ type fields, value.bare ≠ .record type fields :=
      fun type fields h => hpresence (bare_eq_record_iff.1 h).2
    have hset := isEmpty_of_inmost_eq_record h
    exact ⟨members, ofSerialized_of_ne_record hset hbare _, List.Sublist.refl _, fun _ hmem _ => hmem,
      fun hle => absurd hle hpresence, fun _ => rfl⟩

end Value

end Criteria
