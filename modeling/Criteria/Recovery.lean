import Criteria.Error
import Criteria.Metrics.Event

/-!
Recovery from panics. A call either returns or panics with a payload; behind the boundary both are
results, and a recovered panic is reported.
-/

set_option autoImplicit false

namespace Criteria

inductive Payload where
  | error (e : Error)
  | message (text : String)
  | other

inductive Outcome (α : Type) where
  | returned (a : α)
  | panicked (payload : Payload)

/-- An error passes through, a message is wrapped, and anything else gets a general message. -/
def Payload.recover : Payload → Error
  | .error e => e
  | .message text => .panicked text
  | .other => .panicked "unknown panic payload"

namespace Outcome

variable {α : Type}

def settle : Outcome (Except Error α) → Except Error α
  | .returned result => result
  | .panicked payload => .error payload.recover

def recovery : Outcome α → List Event
  | .returned _ => []
  | .panicked _ => [.panicRecovered]

end Outcome

end Criteria
