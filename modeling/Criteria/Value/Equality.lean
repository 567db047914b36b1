import Criteria.Value.Basic

set_option autoImplicit false

namespace Criteria.Value

def sameOutcome : Except String Json → Except String Json → Bool
  | .ok a, .ok b => a == b
  | .error a, .error b => a == b
  | _, _ => false

mutual

def same : Value → Value → Bool
  | .null, .null => true
  | .present a, .present b => same a b
  | .bool a, .bool b => a == b
  | .int a, .int b => a == b
  | .uint a, .uint b => a == b
  | .float a, .float b => a == b
  | .text a, .text b => a == b
  | .list a, .list b => sameItems a b
  | .map a, .map b => sameEntries a b
  | .record s a, .record t b => s == t && sameEntries a b
  | .document a, .document b => sameOutcome a b
  | _, _ => false

def sameItems : List Value → List Value → Bool
  | [], [] => true
  | a :: as, b :: bs => same a b && sameItems as bs
  | _, _ => false

def sameEntries : List (String × Value) → List (String × Value) → Bool
  | [], [] => true
  | (k, a) :: as, (l, b) :: bs => k == l && same a b && sameEntries as bs
  | _, _ => false

end

instance : BEq Value := ⟨same⟩

end Criteria.Value
