import Criteria.Proofs.KeyedListings
import Criteria.Value.Json

set_option autoImplicit false

namespace Criteria

namespace Json

theorem Whole.ofInt64_ofInt (n : Whole) (h : n.val < 0x8000000000000000) :
    Whole.ofInt64 (Int64.ofInt n.val) = n := by
  obtain ⟨val, lower, upper⟩ := n
  change val < 0x8000000000000000 at h
  have hval : (Int64.ofInt val).toInt = val := Int64.toInt_ofInt_of_le (by omega) (by omega)
  simp only [Whole.ofInt64, hval]

theorem Whole.ofUInt64_ofNat (n : Whole) (h : 0 ≤ n.val) :
    Whole.ofUInt64 (UInt64.ofNat n.val.toNat) = n := by
  obtain ⟨val, lower, upper⟩ := n
  have hval : (UInt64.ofNat val.toNat).toNat = val.toNat :=
    UInt64.toNat_ofNat_of_lt' (by simp only [UInt64.size]; omega)
  simp only [Whole.ofUInt64, hval, Int.toNat_of_nonneg h]

end Json

namespace Value

theorem toJson_ofWhole (n : Json.Whole) : (ofWhole n).toJson = .whole n := by
  unfold ofWhole
  split
  · rename_i h
    rw [toJson, n.ofInt64_ofInt h]
  · rename_i h
    rw [toJson, n.ofUInt64_ofNat (by omega)]

theorem ofWhole_ofInt64 (n : Int64) : ofWhole (.ofInt64 n) = .int n := by
  have h : (Json.Whole.ofInt64 n).val < 0x8000000000000000 := n.toInt_lt
  rw [ofWhole, if_pos h]
  exact congrArg Value.int n.ofInt_toInt

theorem ofWhole_ofUInt64 (n : UInt64) :
    ofWhole (.ofUInt64 n) =
      if n.toNat < 0x8000000000000000 then .int (Int64.ofInt n.toNat) else .uint n := by
  have hval : (Json.Whole.ofUInt64 n).val = n.toNat := rfl
  rw [ofWhole, hval, Int.toNat_natCast, UInt64.ofNat_toNat]
  by_cases h : n.toNat < 0x8000000000000000
  · rw [if_pos h, if_pos (by omega)]
  · rw [if_neg h, if_neg (by omega)]

theorem toJson_ofJson_float (x : Json.Finite) : (ofJson (.float x)).toJson = .float x := by
  rw [ofJson, toJson, Json.ofFloat, dif_pos x.property]

theorem ofJson_ofFloat (x : Float) : ofJson (.ofFloat x) = if x.isFinite then .float x else .null := by
  unfold Json.ofFloat
  split <;> rfl

mutual

/-- What is left of a value in its JSON form. Presence is erased at every depth, an unsigned number that a
signed one can hold becomes signed, numbers that are not finite and documents that failed become null, a
record becomes the map of its fields, and a document becomes the snapshot of its contents. -/
def canonical : Value → Value
  | .null => .null
  | .present inner => canonical inner
  | .bool b => .bool b
  | .int n => .int n
  | .uint n => if n.toNat < 0x8000000000000000 then .int (Int64.ofInt n.toNat) else .uint n
  | .float x => if x.isFinite then .float x else .null
  | .text s => .text s
  | .list items => .list (canonicalItems items)
  | .map entries => .map (canonicalEntries entries)
  | .record _ fields => ofEntries (canonicalEntries fields)
  | .document (.ok json) => ofJson json
  | .document (.error _) => .null

def canonicalItems : List Value → List Value
  | [] => []
  | item :: items => canonical item :: canonicalItems items

def canonicalEntries : List (String × Value) → List (String × Value)
  | [] => []
  | (key, value) :: entries => (key, canonical value) :: canonicalEntries entries

end

theorem ofJsonMembers_eq_map (members : List (String × Json)) :
    ofJsonMembers members = members.map (Prod.map id ofJson) := by
  induction members with
  | nil => rfl
  | cons member members ih => rw [ofJsonMembers, ih]; rfl

theorem canonicalItems_eq_map (items : List Value) : canonicalItems items = items.map canonical := by
  induction items with
  | nil => rfl
  | cons item items ih => rw [canonicalItems, ih]; rfl

theorem canonicalEntries_eq_map (entries : List (String × Value)) :
    canonicalEntries entries = entries.map (Prod.map id canonical) := by
  induction entries with
  | nil => rfl
  | cons entry entries ih => rw [canonicalEntries, ih]; rfl

mutual

/-- A document is read back from its snapshot. -/
theorem toJson_ofJson : ∀ json : Json, (ofJson json).toJson = json
  | .null => rfl
  | .bool _ => rfl
  | .whole n => toJson_ofWhole n
  | .float x => toJson_ofJson_float x
  | .string _ => rfl
  | .array items => by rw [ofJson, toJson, toJsonItems_ofJsonItems items]
  | .object members => by rw [ofJson, toJson, toJsonEntries_ofJsonMembers members]

theorem toJsonItems_ofJsonItems : ∀ items : List Json, toJsonItems (ofJsonItems items) = items
  | [] => rfl
  | item :: items => by
    rw [ofJsonItems, toJsonItems, toJson_ofJson item, toJsonItems_ofJsonItems items]

theorem toJsonEntries_ofJsonMembers :
    ∀ members : List (String × Json), toJsonEntries (ofJsonMembers members) = members
  | [] => rfl
  | (key, value) :: members => by
    rw [ofJsonMembers, toJsonEntries, toJson_ofJson value, toJsonEntries_ofJsonMembers members]

end

/-- The members of an object stand where the fields of the record stood, whatever their values. -/
theorem ofJson_ofMembers (members : List (String × Json)) :
    ofJson (.ofMembers members) = ofEntries (ofJsonMembers members) := by
  rw [Json.ofMembers, ofJson, ofJsonMembers_eq_map, ofJsonMembers_eq_map, ofEntries,
    Keyed.toList_ofList_map]

mutual

/-- What is read back from the JSON form of a value is its canonical form. -/
theorem ofJson_toJson : ∀ value : Value, ofJson value.toJson = value.canonical
  | .null => rfl
  | .present inner => ofJson_toJson inner
  | .bool _ => rfl
  | .int n => ofWhole_ofInt64 n
  | .uint n => ofWhole_ofUInt64 n
  | .float x => ofJson_ofFloat x
  | .text _ => rfl
  | .list items => by rw [toJson, ofJson, ofJsonItems_toJsonItems items, canonical]
  | .map entries => by rw [toJson, ofJson, ofJsonMembers_toJsonEntries entries, canonical]
  | .record type fields => by
    rw [toJson, ofJson_ofMembers, ofJsonMembers_toJsonEntries fields, canonical]
  | .document (.ok _) => rfl
  | .document (.error _) => rfl

theorem ofJsonItems_toJsonItems :
    ∀ items : List Value, ofJsonItems (toJsonItems items) = canonicalItems items
  | [] => rfl
  | item :: items => by
    rw [toJsonItems, ofJsonItems, ofJson_toJson item, ofJsonItems_toJsonItems items, canonicalItems]

theorem ofJsonMembers_toJsonEntries :
    ∀ entries : List (String × Value), ofJsonMembers (toJsonEntries entries) = canonicalEntries entries
  | [] => rfl
  | (key, value) :: entries => by
    rw [toJsonEntries, ofJsonMembers, ofJson_toJson value, ofJsonMembers_toJsonEntries entries,
      canonicalEntries]

end

/-- A value of which its JSON form tells everything: no presence, record or document is left in it, and
each number is of the first kind that can hold it. -/
inductive IsCanonical : Value → Prop where
  | null : IsCanonical .null
  | bool (b : Bool) : IsCanonical (.bool b)
  | int (n : Int64) : IsCanonical (.int n)
  | uint {n : UInt64} (h : 0x8000000000000000 ≤ n.toNat) : IsCanonical (.uint n)
  | float {x : Float} (h : x.isFinite = true) : IsCanonical (.float x)
  | text (s : String) : IsCanonical (.text s)
  | list {items : List Value} (h : ∀ item ∈ items, IsCanonical item) : IsCanonical (.list items)
  | map {entries : List (String × Value)} (h : ∀ entry ∈ entries, IsCanonical entry.2) :
    IsCanonical (.map entries)

theorem isCanonical_ofWhole (n : Json.Whole) : (ofWhole n).IsCanonical := by
  unfold ofWhole
  split
  · exact .int _
  · rename_i h
    have hupper := n.upper
    refine .uint ?_
    rw [UInt64.toNat_ofNat_of_lt' (by simp only [UInt64.size]; omega)]
    omega

mutual

theorem isCanonical_ofJson : ∀ json : Json, (ofJson json).IsCanonical
  | .null => .null
  | .bool b => .bool b
  | .whole n => isCanonical_ofWhole n
  | .float x => .float x.property
  | .string s => .text s
  | .array items => .list (isCanonical_ofJsonItems items)
  | .object members => .map (isCanonical_ofJsonMembers members)

theorem isCanonical_ofJsonItems : ∀ items : List Json, ∀ item ∈ ofJsonItems items, item.IsCanonical
  | [] => by simp [ofJsonItems]
  | item :: items =>
    List.forall_mem_cons.2 ⟨isCanonical_ofJson item, isCanonical_ofJsonItems items⟩

theorem isCanonical_ofJsonMembers :
    ∀ members : List (String × Json), ∀ entry ∈ ofJsonMembers members, entry.2.IsCanonical
  | [] => by simp [ofJsonMembers]
  | (_, value) :: members =>
    List.forall_mem_cons.2 ⟨isCanonical_ofJson value, isCanonical_ofJsonMembers members⟩

end

variable {value : Value}

theorem isCanonical_canonical (value : Value) : value.canonical.IsCanonical :=
  ofJson_toJson value ▸ isCanonical_ofJson value.toJson

theorem IsCanonical.canonical_eq (h : value.IsCanonical) : value.canonical = value := by
  induction h with
  | null => rfl
  | bool b => rfl
  | int n => rfl
  | uint h => rw [canonical, if_neg (Nat.not_lt.2 h)]
  | float h => rw [canonical, if_pos h]
  | text s => rfl
  | list _ ih =>
    rw [canonical, canonicalItems_eq_map]
    exact congrArg Value.list ((List.map_congr_left ih).trans (List.map_id _))
  | map _ ih =>
    rw [canonical, canonicalEntries_eq_map]
    refine congrArg Value.map ((List.map_congr_left fun entry hentry => ?_).trans (List.map_id _))
    exact Prod.ext rfl (ih entry hentry)

theorem canonical_eq_self_iff : value.canonical = value ↔ value.IsCanonical :=
  ⟨fun h => h ▸ isCanonical_canonical value, IsCanonical.canonical_eq⟩

theorem toJson_canonical (value : Value) : value.canonical.toJson = value.toJson := by
  rw [← ofJson_toJson, toJson_ofJson]

/-- The canonical form of a record has under each name the canonical form of its last field of the name. -/
theorem canonical_record (type : TypeId) (fields : List (String × Value)) :
    ∃ entries, canonical (.record type fields) = .map entries ∧ KeySorted entries ∧
      ∀ name, Keyed.lookup name entries = (Keyed.lookup name fields.reverse).map canonical := by
  refine ⟨_, by rw [canonical, ofEntries], Keyed.sorted _, fun name => ?_⟩
  rw [← Keyed.get?, Keyed.get?_ofList, canonicalEntries_eq_map, ← List.map_reverse, Keyed.lookup_map]

theorem ofJsonField_eq_null_iff {json : Json} : ofJsonField json = .null ↔ json = .null := by
  cases json <;> simp [ofJsonField, Json.isNull]

theorem toJson_ofJsonField (json : Json) : (ofJsonField json).toJson = json := by
  cases json with
  | null => rfl
  | _ => exact toJson_ofJson _

/-- Every document is the JSON form of its snapshot, also as a field, which is absent only for null. The
snapshot of the JSON form of any value is the canonical form of the value; so the canonical form is
canonical, taking it again changes nothing, and it has the same JSON form. Only canonical values are left
as they are, and of the fields of a record with one name the last one stays. -/
theorem json_round_trip :
    (∀ json : Json, (ofJson json).toJson = json ∧ (ofJsonField json = .null ↔ json = .null) ∧
      (ofJsonField json).toJson = json) ∧
    (∀ value : Value, ofJson value.toJson = value.canonical ∧
      value.canonical.canonical = value.canonical ∧ value.canonical.toJson = value.toJson ∧
      value.canonical.IsCanonical ∧ (value.canonical = value ↔ value.IsCanonical)) ∧
    ∀ (type : TypeId) (fields : List (String × Value)), ∃ entries,
      canonical (.record type fields) = .map entries ∧ KeySorted entries ∧
        ∀ name, Keyed.lookup name entries = (Keyed.lookup name fields.reverse).map canonical := by
  refine ⟨fun json => ⟨toJson_ofJson json, ofJsonField_eq_null_iff, toJson_ofJsonField json⟩,
    fun value => ⟨ofJson_toJson value, ?_, toJson_canonical value, isCanonical_canonical value,
      canonical_eq_self_iff⟩, canonical_record⟩
  exact (isCanonical_canonical value).canonical_eq

/-- The last `n` stays, and a number beyond the signed ones stays unsigned. -/
example : canonical (.record 0 [("n", .present (.uint 1)), ("a", .uint 0x8000000000000000),
    ("n", .present (.present (.uint 2)))]) =
    .map [("a", .uint 0x8000000000000000), ("n", .int 2)] := by
  cbv

end Value

end Criteria
