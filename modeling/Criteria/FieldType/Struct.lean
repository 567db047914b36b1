import Criteria.FieldType.Basic
import Criteria.Operator.Update
import Criteria.Schema.Basic

set_option autoImplicit false

namespace Criteria

namespace FieldType

def serialize : (t : FieldType) → t.Carrier → Except String Json
  | .bool => fun b => .ok (.bool b)
  | .int _ => fun n => .ok (.whole (.ofInt64 (Int64.ofInt n.val)))
  | .uint _ => fun n => .ok (.whole (.ofUInt64 (UInt64.ofNat n.val)))
  | .float => fun x => .ok (.ofFloat x)
  | .char => fun c => .ok (.string c.toString)
  | .text => fun s => .ok (.string s)
  | .json => fun json => .ok json
  | .struct _ => fun s => s.serialized
  | .optional inner => fun
    | some x => inner.serialize x
    | none => .ok .null
  | .list element => fun xs => return .array (← xs.mapM element.serialize)
  | .array _ element => fun xs => return .array (← xs.toList.mapM element.serialize)
  | .map key value => fun entries =>
    return .ofMembers (← entries.mapM fun (k, x) => return (key.keyText k, ← value.serialize x))
  | .boxed inner => inner.serialize
  | .reference target => target.serialize

end FieldType

structure StructField where
  name : String
  type : FieldType
  embedded : Bool := false
  annotations : Annotations := {}

namespace StructField

def isAnnotated (f : StructField) : Bool := f.embedded || !f.annotations.isEmpty

def declaration (f : StructField) : Declaration :=
  { name := f.name, shape := f.type.shape, embedded := f.embedded, annotations := f.annotations }

/-- A field that is merged as JSON is stored as its document. -/
def isMerged (f : StructField) : Bool := f.annotations.update = some UpdateOp.mergeJson.token

def stored (f : StructField) (x : f.type.Carrier) : Value :=
  let snapshot := f.type.snapshot x
  if f.isMerged then Value.ofSerialized snapshot (f.type.serialize x) else snapshot

abbrev Valued := (f : StructField) × f.type.Carrier

end StructField

def StructType.ofFields (name : String) (fields : List StructField) : StructType :=
  ⟨name, (fields.filter (·.isAnnotated)).map (·.declaration)⟩

def StructValue.snapshotFields (fields : List StructField.Valued) : List (String × Value) :=
  (fields.filter (·.1.isAnnotated)).map fun f => (f.1.name, f.1.stored f.2)

end Criteria
