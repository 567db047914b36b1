import Criteria.Error

set_option autoImplicit false

namespace Criteria

inductive Event where
  | planned (type : String) (fields : Nat)
  | cacheHit (type : String)
  | conditionBuilt (type : String) (empty : Bool)
  | assignmentsBuilt (type : String) (columns : Nat)
  | failed (side : ErrorClass)
  | panicRecovered
deriving DecidableEq

end Criteria
