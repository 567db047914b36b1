import Criteria.Schema.Shape

set_option autoImplicit false

namespace Criteria

inductive Fault where
  | embeddedWithColumn
  | orWithColumn
  | orNotStruct (kind : Kind)
  | missingColumn
  | membershipNotList (op : String) (kind : Kind)
  | equalityOnList
  | likeNotText (kind : Kind)
  | unknownQuery (token : String)
  | unknownUpdate (token : String)
  | embeddedNotStruct (kind : Kind)
  | recursiveFlatten (type : String)
deriving DecidableEq

inductive Error where
  | input (kind : String)
  | declaration (field : String) (fault : Fault)
  | projection (kind : String)
  | serialization (message : String)
  | operand (column expected found : String)
  | panicked (message : String)
deriving DecidableEq

inductive ErrorClass where
  | input
  | schema
  | value
  | internal
deriving DecidableEq

def Fault.reason : Fault → String
  | .embeddedWithColumn => ": flattened field cannot declare a column"
  | .orWithColumn => ": `or` field cannot declare a column"
  | .orNotStruct kind => s!": `or` field must be a struct or a list of structs, got {kind.name}"
  | .missingColumn => ": field needs a column"
  | .membershipNotList op kind => s!": `{op}` field must be a list, got {kind.name}"
  | .equalityOnList => ": `=` field cannot be a list"
  | .likeNotText kind => s!": `like` field must be text, got {kind.name}"
  | .unknownQuery token => s!" declares unknown query operator `{token}`"
  | .unknownUpdate token => s!" declares unknown update operator `{token}`"
  | .embeddedNotStruct kind => s!" must be a struct, got {kind.name}"
  | .recursiveFlatten type =>
    s!": flattened field embeds `{type}`, which is already being flattened"

namespace Error

def message : Error → String
  | .input kind => s!"input is invalid: expected a struct, got {kind}"
  | .declaration field fault => s!"field `{field}`" ++ fault.reason
  | .projection kind => s!"merge_json needs a serialized document, got {kind}"
  | .serialization message => s!"merge_json value failed to serialize: {message}"
  | .operand column expected found =>
    s!"column `{column}` expects a {expected} value, got {found}"
  | .panicked message => s!"builder panicked: {message}"

def classOf : Error → ErrorClass
  | .input _ => .input
  | .declaration _ _ => .schema
  | .projection _ => .value
  | .serialization _ => .value
  | .operand _ _ _ => .value
  | .panicked _ => .internal

end Error

end Criteria
