import Mathlib.Data.List.Induction
import Mathlib.Data.List.Perm.Basic
import Mathlib.Data.List.Sort
import Criteria.Proofs.Readings

set_option autoImplicit false

namespace Criteria.Keyed

variable {α β : Type} {key : String} {value : α} {entries : List (String × α)}

theorem ofList_concat (entries : List (String × α)) (last : String × α) :
    ofList (entries ++ [last]) = (ofList entries).insert last.1 last.2 := by
  simp [ofList]

theorem toList_ofList_concat (entries : List (String × α)) (last : String × α) :
    (ofList (entries ++ [last])).toList = insertEntry last.1 last.2 (ofList entries).toList :=
  congrArg toList (ofList_concat entries last)

/-- Of the values that the list has for one key the last one stays. -/
theorem get?_ofList (entries : List (String × α)) (key : String) :
    (ofList entries).get? key = lookup key entries.reverse := by
  induction entries using List.reverseRecOn with
  | nil => rfl
  | append_singleton entries last ih =>
    rw [ofList_concat, get?_insert, ih, List.reverse_append]
    rfl

theorem mem_ofList {e : String × α} (h : e ∈ (ofList entries).toList) : e ∈ entries := by
  induction entries using List.reverseRecOn with
  | nil => exact absurd h List.not_mem_nil
  | append_singleton entries last ih =>
    rw [toList_ofList_concat] at h
    rcases mem_insertEntry h with rfl | h
    · exact List.mem_append_right _ (List.mem_singleton_self _)
    · exact List.mem_append_left _ (ih h)

theorem insertEntry_ne_nil (key : String) (value : α) (entries : List (String × α)) :
    insertEntry key value entries ≠ [] := by
  cases entries with
  | nil => simp [insertEntry]
  | cons first rest =>
    rw [insertEntry]
    split
    · simp
    · split <;> simp

theorem isEmpty_ofList (entries : List (String × α)) :
    (ofList entries).toList.isEmpty = entries.isEmpty := by
  induction entries using List.reverseRecOn with
  | nil => rfl
  | append_singleton entries last ih =>
    rw [toList_ofList_concat, List.isEmpty_eq_false_iff.2 (insertEntry_ne_nil _ _ _),
      List.isEmpty_eq_false_iff.2 (List.concat_ne_nil _ _)]

theorem insertEntry_perm (h : key ∉ entries.map (·.1)) (value : α) :
    (insertEntry key value entries).Perm ((key, value) :: entries) := by
  induction entries with
  | nil => exact List.Perm.refl _
  | cons first rest ih =>
    obtain ⟨k, v⟩ := first
    rw [List.map_cons, List.mem_cons, not_or] at h
    rw [insertEntry]
    split
    · exact List.Perm.refl _
    · rw [if_neg h.1]
      exact ((ih h.2).cons _).trans (List.Perm.swap _ _ _)

/-- No entry is lost and none are merged if no key comes twice. -/
theorem ofList_perm (h : (entries.map (·.1)).Nodup) : (ofList entries).toList.Perm entries := by
  induction entries using List.reverseRecOn with
  | nil => exact List.Perm.refl _
  | append_singleton entries last ih =>
    rw [List.map_append, List.nodup_append] at h
    obtain ⟨hentries, -, hnew⟩ := h
    have hperm := ih hentries
    have hlast : last.1 ∉ (ofList entries).toList.map (·.1) := by
      intro hmem
      exact hnew _ ((hperm.map _).mem_iff.1 hmem) _ (List.mem_singleton_self _) rfl
    rw [toList_ofList_concat]
    exact (insertEntry_perm hlast last.2).trans
      ((hperm.cons last).trans (List.perm_append_singleton last entries).symm)

section MappedValues

variable (f : α → β)

theorem insertEntry_map (key : String) (value : α) (entries : List (String × α)) :
    insertEntry key (f value) (entries.map (Prod.map id f)) =
      (insertEntry key value entries).map (Prod.map id f) := by
  induction entries with
  | nil => rfl
  | cons first rest ih =>
    obtain ⟨k, v⟩ := first
    rw [List.map_cons, Prod.map_apply, id_eq, insertEntry, insertEntry, ih]
    split
    · rfl
    · split <;> rfl

theorem toList_ofList_map (entries : List (String × α)) :
    (ofList (entries.map (Prod.map id f))).toList = (ofList entries).toList.map (Prod.map id f) := by
  induction entries using List.reverseRecOn with
  | nil => rfl
  | append_singleton entries last ih =>
    rw [List.map_append, List.map_singleton, toList_ofList_concat, toList_ofList_concat, ih]
    exact insertEntry_map f last.1 last.2 _

theorem lookup_map (key : String) (entries : List (String × α)) :
    lookup key (entries.map (Prod.map id f)) = (lookup key entries).map f := by
  induction entries with
  | nil => rfl
  | cons first rest ih =>
    obtain ⟨k, v⟩ := first
    rw [List.map_cons, Prod.map_apply, id_eq, lookup, lookup, ih]
    split <;> rfl

end MappedValues

theorem keys_sorted (m : Keyed α) : (m.toList.map (·.1)).Pairwise (· < ·) :=
  List.pairwise_map.2 m.sorted

theorem keys_nodup (m : Keyed α) : (m.toList.map (·.1)).Nodup :=
  m.keys_sorted.imp String.ne_of_lt

theorem mem_keys_iff (m : Keyed α) : key ∈ m.toList.map (·.1) ↔ ∃ a, m.get? key = some a := by
  simp only [get?, lookup_eq_some_iff m.keys_nodup, List.mem_map, Prod.exists, exists_and_right,
    exists_eq_right]

theorem keys_eq {m : Keyed α} {n : Keyed β}
    (h : ∀ key, (∃ a, m.get? key = some a) ↔ ∃ b, n.get? key = some b) :
    m.toList.map (·.1) = n.toList.map (·.1) :=
  m.keys_sorted.eq_of_mem_iff n.keys_sorted fun key => by rw [mem_keys_iff, mem_keys_iff, h]

theorem mem_toList_iff (m : Keyed α) (e : String × α) : e ∈ m.toList ↔ m.get? e.1 = some e.2 :=
  (lookup_eq_some_iff m.keys_nodup).symm

/-- A map is known by what it holds under each key. -/
theorem ext_get? {m n : Keyed α} (h : ∀ key, m.get? key = n.get? key) : m = n := by
  have hperm : m.toList.Perm n.toList :=
    (List.perm_ext_iff_of_nodup (m.keys_nodup.of_map _) (n.keys_nodup.of_map _)).2 fun e => by
      rw [mem_toList_iff, mem_toList_iff, h]
  refine ext (hperm.eq_of_pairwise (fun a b _ _ hab hba => ?_) m.sorted n.sorted)
  exact absurd (String.lt_trans hab hba) (String.lt_irrefl _)

theorem get?_alter (m : Keyed α) (key other : String) (f : Option α → α) :
    (m.alter key f).get? other = if key = other then some (f (m.get? key)) else m.get? other :=
  get?_insert m key other _

end Criteria.Keyed
