import Criteria.Value.Basic

set_option autoImplicit false

namespace Criteria.Value

mutual

/-- The JSON form. Numbers that a document cannot hold and documents that failed to serialize become
null; a record is an object of its fields, in which the last of a repeated name stays. -/
def toJson : Value → Json
  | .null => .null
  | .present inner => toJson inner
  | .bool b => .bool b
  | .int n => .whole (.ofInt64 n)
  | .uint n => .whole (.ofUInt64 n)
  | .float x => .ofFloat x
  | .text s => .string s
  | .list items => .array (toJsonItems items)
  | .map entries => .object (toJsonEntries entries)
  | .record _ fields => .ofMembers (toJsonEntries fields)
  | .document (.ok json) => json
  | .document (.error _) => .null

def toJsonItems : List Value → List Json
  | [] => []
  | item :: items => toJson item :: toJsonItems items

def toJsonEntries : List (String × Value) → List (String × Json)
  | [] => []
  | (key, value) :: entries => (key, toJson value) :: toJsonEntries entries

end

def ofWhole (n : Json.Whole) : Value :=
  if n.val < 0x8000000000000000 then .int (Int64.ofInt n.val) else .uint (UInt64.ofNat n.val.toNat)

mutual

def ofJson : Json → Value
  | .null => .null
  | .bool b => .bool b
  | .whole n => ofWhole n
  | .float x => .float x.val
  | .string s => .text s
  | .array items => .list (ofJsonItems items)
  | .object members => .map (ofJsonMembers members)

def ofJsonItems : List Json → List Value
  | [] => []
  | item :: items => ofJson item :: ofJsonItems items

def ofJsonMembers : List (String × Json) → List (String × Value)
  | [] => []
  | (key, value) :: members => (key, ofJson value) :: ofJsonMembers members

end

/-- The snapshot of a field that holds a document: null is absent, all else is present, and the
contents are never looked at for emptiness. -/
def ofJsonField (json : Json) : Value :=
  if json.isNull then .null else .present (ofJson json)

/-- The stored form of a field that is merged as JSON, from its plain snapshot and the outcome of
serializing it. An empty field stays as it is. The document of a struct drops its null members,
which a merge would read as deletions. -/
def ofSerialized (snapshot : Value) (outcome : Except String Json) : Value :=
  if snapshot.isEmpty then snapshot
  else if snapshot.bare.record?.isSome then .document (outcome.map Json.withoutNulls)
  else .document outcome

def documentJson (outcome : Except String Json) : Except Error Json :=
  outcome.mapError .serialization

end Criteria.Value
