import Criteria.Error
import Criteria.Json.Basic

/-!
Snapshots of field values. A value keeps what the builders need to know about a field: whether it
is absent or present, its kind, and for a struct the type and the values of its fields.
-/

set_option autoImplicit false

namespace Criteria

/-- A snapshot of a field value.

`null` is an absent value, `present` a value that is there whatever it wraps, `record` a described
struct with its fields in declaration order, and `document` the outcome of serializing a value that
is merged as JSON: the document, or the message of the failure. -/
inductive Value where
  | null
  | present (inner : Value)
  | bool (b : Bool)
  | int (n : Int64)
  | uint (n : UInt64)
  | float (x : Float)
  | text (s : String)
  | list (items : List Value)
  | map (entries : List (String × Value))
  | record (type : TypeId) (fields : List (String × Value))
  | document (outcome : Except String Json)

structure Record where
  type : TypeId
  fields : List (String × Value)

namespace Value

instance : Inhabited Value := ⟨.null⟩

def ofEntries (entries : List (String × Value)) : Value :=
  .map (Keyed.ofList entries).toList

/-- The zero value of a kind: null, `false`, zero, an empty text or an empty collection. A present
value, a record and a document are never empty. -/
def isEmpty : Value → Bool
  | .null => true
  | .bool b => !b
  | .int n => n == 0
  | .uint n => n == 0
  | .float x => x == 0.0
  | .text s => s.isEmpty
  | .list items => items.isEmpty
  | .map entries => entries.isEmpty
  | .present _ | .record _ _ | .document _ => false

def bare : Value → Value
  | .present inner => inner
  | other => other

def text? : Value → Option String
  | .text s => some s
  | _ => none

def bool? : Value → Option Bool
  | .bool b => some b
  | _ => none

def list? : Value → Option (List Value)
  | .list items => some items
  | _ => none

def record? : Value → Option Record
  | .record type fields => some ⟨type, fields⟩
  | _ => none

def kindName : Value → String
  | .null => "null"
  | .present _ => "option"
  | .bool _ => "bool"
  | .int _ => "int"
  | .uint _ => "uint"
  | .float _ => "float"
  | .text _ => "text"
  | .list _ => "list"
  | .map _ => "map"
  | .record _ _ => "struct"
  | .document _ => "document"

def normalize (v : Value) : Except Error Record :=
  match v.bare with
  | .record type fields => .ok ⟨type, fields⟩
  | other => .error (.input other.kindName)

end Value

namespace Record

def get? (r : Record) (name : String) : Option Value := Keyed.lookup name r.fields

/-- Follows field names through embedded records, one level of presence allowed around each. There
is no value when a step is missing, absent or not a record, and none at the end of no steps. -/
def path? : List String → Record → Option Value
  | [], _ => none
  | [last], r => r.get? last
  | step :: next :: rest, r =>
    match (r.get? step).bind fun v => v.bare.record? with
    | some inner => path? (next :: rest) inner
    | none => none

def given? (r : Record) (path : List String) : Option Value :=
  match Record.path? path r with
  | some v => if v.isEmpty then none else some v.bare
  | none => none

end Record

end Criteria
