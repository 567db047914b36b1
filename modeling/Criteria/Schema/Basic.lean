import Criteria.Schema.Shape

set_option autoImplicit false

namespace Criteria

/-- The tokens written on a field; a missing one and an empty one are told apart. -/
structure Annotations where
  column : Option String := none
  query : Option String := none
  update : Option String := none
deriving DecidableEq

namespace Annotations

def isEmpty (a : Annotations) : Bool :=
  a.column.isNone && a.query.isNone && a.update.isNone

def listing (a : Annotations) : List (String × String) :=
  [("column", a.column), ("query", a.query), ("update", a.update)].filterMap fun (name, token) =>
    token.map (name, ·)

end Annotations

structure Declaration where
  name : String
  shape : Shape
  embedded : Bool := false
  annotations : Annotations := {}
deriving DecidableEq

structure StructType where
  name : String
  fields : List Declaration
deriving DecidableEq

/-- A finite table of struct types; a `TypeId` is a place in it. -/
structure Schema where
  types : List StructType
deriving DecidableEq

namespace Schema

def size (s : Schema) : Nat := s.types.length

def struct? (s : Schema) (type : TypeId) : Option StructType := s.types[type]?

def nameOf (s : Schema) (type : TypeId) : String := ((s.struct? type).map (·.name)).getD ""

def fieldsOf (s : Schema) (type : TypeId) : List Declaration :=
  ((s.struct? type).map (·.fields)).getD []

end Schema

end Criteria
