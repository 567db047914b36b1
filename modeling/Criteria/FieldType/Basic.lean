import Criteria.Schema.Shape
import Criteria.Value.Json

/-!
Field types. A type of this universe says which values a field may hold; each type has a shape, and
each of its values has a snapshot. Shape and snapshot are defined side by side, one case for each
type.
-/

set_option autoImplicit false

namespace Criteria

inductive Width where
  | w8
  | w16
  | w32
  | w64
deriving DecidableEq

/-- The end of the range of numbers with a sign, which begins at its negative. Without a sign the
range begins at zero and is as long. -/
def Width.bound : Width → Nat
  | .w8 => 0x80
  | .w16 => 0x8000
  | .w32 => 0x80000000
  | .w64 => 0x8000000000000000

abbrev SignedOf (w : Width) := { n : Int // -(w.bound : Int) ≤ n ∧ n < w.bound }

abbrev UnsignedOf (w : Width) := { n : Nat // n < 2 * w.bound }

/-- A value of a described struct, seen from outside: the snapshots of its fields, and what becomes
of it when it is serialized. -/
structure StructValue where
  fields : List (String × Value)
  serialized : Except String Json

inductive KeyType where
  | bool
  | int (w : Width)
  | uint (w : Width)
  | char
  | text
deriving DecidableEq

namespace KeyType

def Carrier : KeyType → Type
  | .bool => Bool
  | .int w => SignedOf w
  | .uint w => UnsignedOf w
  | .char => Char
  | .text => String

def keyText : (k : KeyType) → k.Carrier → String
  | .bool => fun (b : Bool) => if b then "true" else "false"
  | .int w => fun (n : SignedOf w) => toString n.val
  | .uint w => fun (n : UnsignedOf w) => toString n.val
  | .char => fun (c : Char) => c.toString
  | .text => fun (s : String) => s

end KeyType

/-- The types of fields. A number of single precision is carried by the double that equals it. -/
inductive FieldType where
  | bool
  | int (w : Width)
  | uint (w : Width)
  | float
  | char
  | text
  | json
  | struct (type : TypeId)
  | optional (inner : FieldType)
  | list (element : FieldType)
  | array (size : Nat) (element : FieldType)
  | map (key : KeyType) (value : FieldType)
  | boxed (inner : FieldType)
  | reference (target : FieldType)
deriving DecidableEq

namespace FieldType

def Carrier : FieldType → Type
  | .bool => Bool
  | .int w => SignedOf w
  | .uint w => UnsignedOf w
  | .float => Float
  | .char => Char
  | .text => String
  | .json => Json
  | .struct _ => StructValue
  | .optional inner => Option inner.Carrier
  | .list element => List element.Carrier
  | .array size element => Vector element.Carrier size
  | .map key value => List (key.Carrier × value.Carrier)
  | .boxed inner => inner.Carrier
  | .reference target => target.Carrier

/-- The shape that a field of this type declares. The target of a reference is not known where it
is declared. -/
def shape : FieldType → Shape
  | .bool => .bool
  | .int _ => .int
  | .uint _ => .uint
  | .float => .float
  | .char => .text
  | .text => .text
  | .json => .any
  | .struct type => .struct type
  | .optional inner => .optional inner.shape
  | .list element => .list element.shape
  | .array _ element => .list element.shape
  | .map _ value => .map value.shape
  | .boxed inner => inner.shape
  | .reference _ => .any

def snapshot : (t : FieldType) → t.Carrier → Value
  | .bool => .bool
  | .int _ => fun n => .int (Int64.ofInt n.val)
  | .uint _ => fun n => .uint (UInt64.ofNat n.val)
  | .float => .float
  | .char => fun c => .text c.toString
  | .text => .text
  | .json => Value.ofJsonField
  | .struct type => fun s => .record type s.fields
  | .optional inner => fun
    | some x => .present (inner.snapshot x)
    | none => .null
  | .list element => fun xs => .list (xs.map element.snapshot)
  | .array _ element => fun xs => .list (xs.toList.map element.snapshot)
  | .map key value => fun entries =>
    Value.ofEntries (entries.map fun (k, x) => (key.keyText k, value.snapshot x))
  | .boxed inner => inner.snapshot
  | .reference target => target.snapshot

end FieldType

end Criteria
