import Criteria.Value.Basic

set_option autoImplicit false

namespace Criteria

theorem Keyed.sizeOf_lookup_lt {α : Type} [SizeOf α] {key : String} {entries : List (String × α)}
    {a : α} (h : Keyed.lookup key entries = some a) : sizeOf a < sizeOf entries := by
  induction entries with
  | nil => simp [Keyed.lookup] at h
  | cons first rest ih =>
    obtain ⟨k, b⟩ := first
    simp only [Keyed.lookup] at h
    split at h
    · obtain rfl := Option.some.inj h
      simp only [List.cons.sizeOf_spec, Prod.mk.sizeOf_spec]
      omega
    · have := ih h
      simp only [List.cons.sizeOf_spec]
      omega

theorem Value.sizeOf_bare_le (v : Value) : sizeOf v.bare ≤ sizeOf v := by
  cases v <;> simp [Value.bare]

theorem Value.sizeOf_record?_lt {v : Value} {r : Record} (h : v.bare.record? = some r) :
    sizeOf r.fields < sizeOf v := by
  have hbare := Value.sizeOf_bare_le v
  cases hv : v.bare with
  | record type fields =>
    rw [hv] at h hbare
    obtain rfl := Option.some.inj h
    change sizeOf fields < sizeOf v
    simp only [Value.record.sizeOf_spec] at hbare
    omega
  | _ => rw [hv] at h; simp [Value.record?] at h

theorem Record.sizeOf_path?_lt {path : List String} {r : Record} {v : Value}
    (h : Record.path? path r = some v) : sizeOf v < sizeOf r.fields := by
  fun_induction Record.path? path r with
  | case1 => simp at h
  | case2 last r => exact Keyed.sizeOf_lookup_lt h
  | case3 step next rest r inner hstep ih =>
    obtain ⟨w, hw, hr⟩ := Option.bind_eq_some_iff.1 hstep
    have h1 := ih h
    have h2 := Value.sizeOf_record?_lt hr
    have h3 := Keyed.sizeOf_lookup_lt hw
    omega
  | case4 => simp at h

theorem Value.sizeOf_normalize_lt {v : Value} {r : Record} (h : v.normalize = .ok r) :
    sizeOf r.fields < sizeOf v := by
  apply Value.sizeOf_record?_lt
  unfold Value.normalize at h
  split at h
  · rename_i hv
    rw [hv]
    simpa [Value.record?] using h
  · simp at h

theorem Record.sizeOf_given?_lt {path : List String} {r : Record} {v : Value}
    (h : r.given? path = some v) : sizeOf v < sizeOf r.fields := by
  unfold Record.given? at h
  split at h
  · rename_i w hw
    split at h
    · simp at h
    · obtain rfl := Option.some.inj h
      exact Nat.lt_of_le_of_lt (Value.sizeOf_bare_le w) (Record.sizeOf_path?_lt hw)
  · simp at h

end Criteria
