
set_option autoImplicit false

namespace Criteria

abbrev TypeId := Nat

inductive Kind where
  | bool
  | int
  | uint
  | float
  | text
  | any
  | option
  | list
  | map
  | struct
deriving DecidableEq

def Kind.name : Kind → String
  | .bool => "bool"
  | .int => "int"
  | .uint => "uint"
  | .float => "float"
  | .text => "text"
  | .any => "any"
  | .option => "option"
  | .list => "list"
  | .map => "map"
  | .struct => "struct"

def Kind.ofName? : String → Option Kind
  | "bool" => some .bool
  | "int" => some .int
  | "uint" => some .uint
  | "float" => some .float
  | "text" => some .text
  | "any" => some .any
  | "option" => some .option
  | "list" => some .list
  | "map" => some .map
  | "struct" => some .struct
  | _ => none

theorem Kind.ofName?_name (k : Kind) : ofName? k.name = some k := by
  cases k <;> rfl

/-- What a field holds. `any` is a dynamically typed value, `optional` a value that may be absent. -/
inductive Shape where
  | bool
  | int
  | uint
  | float
  | text
  | any
  | optional (inner : Shape)
  | list (element : Shape)
  | map (value : Shape)
  | struct (type : TypeId)
deriving DecidableEq

namespace Shape

def kind : Shape → Kind
  | .bool => .bool
  | .int => .int
  | .uint => .uint
  | .float => .float
  | .text => .text
  | .any => .any
  | .optional _ => .option
  | .list _ => .list
  | .map _ => .map
  | .struct _ => .struct

def isOptional : Shape → Bool
  | .optional _ => true
  | _ => false

def required : Shape → Shape
  | .optional inner => inner
  | other => other

def struct? : Shape → Option TypeId
  | .struct type => some type
  | _ => none

def isList : Shape → Bool
  | .list _ => true
  | _ => false

def embedded? (s : Shape) : Option TypeId := s.required.struct?

/-- The struct that an alternatives field expands into: the struct itself or the element of a list,
after one optional layer around the field. A list of optional structs has none. -/
def alternatives? (s : Shape) : Option TypeId :=
  match s.required with
  | .struct type => some type
  | .list element => element.struct?
  | _ => none

end Shape

end Criteria
