import Criteria.FieldType.Basic
import Criteria.Proofs.KeyedListings

set_option autoImplicit false

namespace Criteria

/-- A value is one of those that a shape is declared for: `any` is declared for all of them, and a struct
for the records of its type. -/
inductive Shape.Admits : Shape → Value → Prop where
  | bool (b : Bool) : Admits .bool (.bool b)
  | int (n : Int64) : Admits .int (.int n)
  | uint (n : UInt64) : Admits .uint (.uint n)
  | float (x : Float) : Admits .float (.float x)
  | text (s : String) : Admits .text (.text s)
  | any (value : Value) : Admits .any value
  | absent (inner : Shape) : Admits (.optional inner) .null
  | present {inner : Shape} {value : Value} (h : Admits inner value) :
    Admits (.optional inner) (.present value)
  | list {element : Shape} {items : List Value} (h : ∀ item ∈ items, Admits element item) :
    Admits (.list element) (.list items)
  | map {element : Shape} {entries : List (String × Value)}
      (h : ∀ entry ∈ entries, Admits element entry.2) : Admits (.map element) (.map entries)
  | struct (type : TypeId) (fields : List (String × Value)) : Admits (.struct type) (.record type fields)

theorem Width.bound_le (w : Width) : w.bound ≤ 0x8000000000000000 := by
  cases w <;> decide

variable {w : Width}

/-- A signed number of any size fits the snapshot. -/
theorem toInt_ofInt_signed (n : SignedOf w) : (Int64.ofInt n.val).toInt = n.val := by
  have hbound := w.bound_le
  obtain ⟨hlower, hupper⟩ := n.property
  exact Int64.toInt_ofInt_of_le (by omega) (by omega)

theorem toNat_ofNat_unsigned (n : UnsignedOf w) : (UInt64.ofNat n.val).toNat = n.val := by
  have hbound := w.bound_le
  have hlt := n.property
  exact UInt64.toNat_ofNat_of_lt' (by simp only [UInt64.size]; omega)

namespace FieldType

def unwrapped : FieldType → FieldType
  | .bool => .bool
  | .int w => .int w
  | .uint w => .uint w
  | .float => .float
  | .char => .char
  | .text => .text
  | .json => .json
  | .struct type => .struct type
  | .optional inner => .optional inner.unwrapped
  | .list element => .list element.unwrapped
  | .array size element => .array size element.unwrapped
  | .map key value => .map key value.unwrapped
  | .boxed inner => inner.unwrapped
  | .reference target => target.unwrapped

def unwrap : (t : FieldType) → t.Carrier → t.unwrapped.Carrier
  | .bool => fun b => b
  | .int _ => fun n => n
  | .uint _ => fun n => n
  | .float => fun x => x
  | .char => fun c => c
  | .text => fun s => s
  | .json => fun json => json
  | .struct _ => fun s => s
  | .optional inner => Option.map inner.unwrap
  | .list element => List.map element.unwrap
  | .array _ element => Vector.map element.unwrap
  | .map _ value => List.map (Prod.map id value.unwrap)
  | .boxed inner => inner.unwrap
  | .reference target => target.unwrap

/-- The zero of a type: an absent value, `false`, a number that is zero, an empty text or collection, or
null for a document. No character and no struct is zero. -/
def IsZero : (t : FieldType) → t.Carrier → Prop
  | .bool => fun (b : Bool) => b = false
  | .int _ => fun n => n.val = 0
  | .uint _ => fun n => n.val = 0
  | .float => fun (x : Float) => (x == 0.0) = true
  | .char => fun _ => False
  | .text => fun (s : String) => s = ""
  | .json => fun (json : Json) => json = .null
  | .struct _ => fun _ => False
  | .optional _ => fun x => x = none
  | .list _ => fun xs => xs = []
  | .array _ _ => fun xs => xs.toList = []
  | .map _ _ => fun entries => entries = []
  | .boxed inner => inner.IsZero
  | .reference target => target.IsZero

theorem admits_snapshot (t : FieldType) (x : t.Carrier) : t.shape.Admits (t.snapshot x) := by
  induction t with
  | bool => exact .bool x
  | int w => exact .int _
  | uint w => exact .uint _
  | float => exact .float x
  | char => exact .text _
  | text => exact .text x
  | json => exact .any _
  | struct type => exact .struct type _
  | optional inner ih =>
    cases x with
    | none => exact .absent _
    | some x => exact .present (ih x)
  | list element ih =>
    refine .list fun item hitem => ?_
    obtain ⟨x, -, rfl⟩ := List.mem_map.1 hitem
    exact ih x
  | array size element ih =>
    refine .list fun item hitem => ?_
    obtain ⟨x, -, rfl⟩ := List.mem_map.1 hitem
    exact ih x
  | map key value ih =>
    refine .map fun entry hentry => ?_
    obtain ⟨⟨k, x⟩, -, rfl⟩ := List.mem_map.1 (Keyed.mem_ofList hentry)
    exact ih x
  | boxed inner ih => exact ih x
  | reference target ih => exact .any _

theorem snapshot_unwrap (t : FieldType) (x : t.Carrier) :
    t.unwrapped.snapshot (t.unwrap x) = t.snapshot x := by
  induction t with
  | optional inner ih =>
    cases x with
    | none => rfl
    | some x => exact congrArg Value.present (ih x)
  | list element ih =>
    have hitems : ∀ xs : List element.Carrier,
        (xs.map element.unwrap).map element.unwrapped.snapshot = xs.map element.snapshot := by
      intro xs
      rw [List.map_map]
      exact List.map_congr_left fun x _ => ih x
    exact congrArg Value.list (hitems x)
  | array size element ih =>
    have hitems : ∀ xs : Vector element.Carrier size,
        (xs.map element.unwrap).toList.map element.unwrapped.snapshot =
          xs.toList.map element.snapshot := by
      intro xs
      rw [Vector.toList_map, List.map_map]
      exact List.map_congr_left fun x _ => ih x
    exact congrArg Value.list (hitems x)
  | map key value ih =>
    have hentries : ∀ entries : List (key.Carrier × value.Carrier),
        (entries.map (Prod.map id value.unwrap)).map
            (fun e => (key.keyText e.1, value.unwrapped.snapshot e.2)) =
          entries.map fun e => (key.keyText e.1, value.snapshot e.2) := by
      intro entries
      rw [List.map_map]
      exact List.map_congr_left fun e _ => congrArg _ (ih e.2)
    exact congrArg Value.ofEntries (hentries x)
  | boxed inner ih => exact ih x
  | reference target ih => exact ih x
  | _ => rfl

theorem isEmpty_snapshot_iff (t : FieldType) (x : t.Carrier) :
    (t.snapshot x).isEmpty = true ↔ t.IsZero x := by
  induction t with
  | bool => exact Iff.of_eq (Bool.not_eq_true' x)
  | int w =>
    have hval := toInt_ofInt_signed x
    refine beq_iff_eq.trans ⟨fun h => ?_, fun h => ?_⟩
    · rw [h] at hval
      exact hval.symm
    · rw [show x.val = 0 from h]
      rfl
  | uint w =>
    have hval := toNat_ofNat_unsigned x
    refine beq_iff_eq.trans ⟨fun h => ?_, fun h => ?_⟩
    · rw [h] at hval
      exact hval.symm
    · rw [show x.val = 0 from h]
      rfl
  | float => exact Iff.rfl
  | char => exact ⟨fun h => absurd (String.isEmpty_iff.1 h) String.singleton_ne_empty, False.elim⟩
  | text => exact String.isEmpty_iff
  | json => cases x <;> simp [snapshot, Value.ofJsonField, Json.isNull, Value.isEmpty, IsZero]
  | struct type => exact ⟨fun h => absurd h Bool.false_ne_true, False.elim⟩
  | optional inner ih =>
    cases x with
    | none => exact ⟨fun _ => rfl, fun _ => rfl⟩
    | some x =>
      exact ⟨fun h => absurd h Bool.false_ne_true, fun h => absurd h (Option.some_ne_none x)⟩
  | list element ih => exact List.isEmpty_iff.trans List.map_eq_nil_iff
  | array size element ih => exact List.isEmpty_iff.trans List.map_eq_nil_iff
  | map key value ih =>
    change (Keyed.ofList _).toList.isEmpty = true ↔ _
    rw [Keyed.isEmpty_ofList]
    exact List.isEmpty_iff.trans List.map_eq_nil_iff
  | boxed inner ih => exact ih x
  | reference target ih => exact ih x

section Keys

variable {κ : Type} {value : FieldType}

def textKeyed (text : κ → String) (entries : List (κ × value.Carrier)) :
    (FieldType.map .text value).Carrier :=
  entries.map fun (k, x) => (text k, x)

def textEntries (text : κ → String) (entries : List (κ × value.Carrier)) : List (String × Value) :=
  entries.map fun (k, x) => (text k, value.snapshot x)

theorem snapshot_textKeyed (text : κ → String) (entries : List (κ × value.Carrier)) :
    (FieldType.map .text value).snapshot (textKeyed text entries) =
      .map (Keyed.ofList (textEntries text entries)).toList := by
  change Value.ofEntries ((entries.map _).map _) = _
  rw [List.map_map]
  rfl

end Keys

/-- The snapshot of a value of any type fits the shape of the type, is the same without boxes and
references, and is empty exactly for the zero of the type without them. A map with keys of any type has
the snapshot of a map of their texts. Under each text the last value of its keys is found; so if all keys
have different texts, the map has all entries and no other. -/
theorem snapshot_fits_shape :
    (∀ (t : FieldType) (x : t.Carrier), t.shape.Admits (t.snapshot x) ∧
      t.unwrapped.snapshot (t.unwrap x) = t.snapshot x ∧
      ((t.snapshot x).isEmpty = true ↔ t.unwrapped.IsZero (t.unwrap x))) ∧
    (∀ (key : KeyType) (value : FieldType) (entries : (FieldType.map key value).Carrier),
      (FieldType.map key value).snapshot entries =
        (FieldType.map .text value).snapshot (textKeyed key.keyText entries)) ∧
    ∀ (κ : Type) (text : κ → String) (value : FieldType) (entries : List (κ × value.Carrier)),
      ∃ kept, (FieldType.map .text value).snapshot (textKeyed text entries) = .map kept ∧
        KeySorted kept ∧
        (∀ name, Keyed.lookup name kept = Keyed.lookup name (textEntries text entries.reverse)) ∧
        ((entries.map fun e => text e.1).Nodup → kept.Perm (textEntries text entries)) := by
  refine ⟨fun t x => ⟨t.admits_snapshot x, t.snapshot_unwrap x, ?_⟩, fun key value entries => ?_,
    fun κ text value entries => ⟨_, snapshot_textKeyed text entries, Keyed.sorted _, fun name => ?_,
      fun h => Keyed.ofList_perm ?_⟩⟩
  · rw [← isEmpty_snapshot_iff, snapshot_unwrap]
  · exact (snapshot_textKeyed key.keyText entries).symm
  · rw [← Keyed.get?, Keyed.get?_ofList, textEntries, textEntries, List.map_reverse]
  · rw [textEntries, List.map_map]
    exact h

def ports : List ((String × Nat) × (FieldType.optional (.uint .w16)).Carrier) :=
  [(("web", 1), some ⟨443, by decide⟩), (("db", 2), none)]

/-- Both hosts keep their port, and the map of ports is in the order of the names. -/
theorem ports_kept :
    (ports.map fun e => e.1.1).Nodup ∧ ∃ kept,
      (FieldType.map .text (.optional (.uint .w16))).snapshot (textKeyed Prod.fst ports) = .map kept ∧
        KeySorted kept ∧ kept.Perm [("web", .present (.uint 443)), ("db", .null)] := by
  obtain ⟨-, -, hmaps⟩ := snapshot_fits_shape
  obtain ⟨kept, hkept, hsorted, -, hperm⟩ := hmaps _ Prod.fst _ ports
  exact ⟨by decide, kept, hkept, hsorted, hperm (by decide)⟩

end FieldType

end Criteria
