import Criteria.Condition.Basic

set_option autoImplicit false

namespace Criteria

inductive QueryOp where
  | lt
  | lte
  | eq
  | ne
  | gt
  | gte
  | among
  | notAmong
  | like
  | null
  | or
deriving DecidableEq

namespace QueryOp

/-- The operator that a token names; the empty token is equality. -/
def ofToken? : String → Option QueryOp
  | "" => some .eq
  | "=" => some .eq
  | "!=" => some .ne
  | "<" => some .lt
  | "<=" => some .lte
  | ">" => some .gt
  | ">=" => some .gte
  | "in" => some .among
  | "not in" => some .notAmong
  | "like" => some .like
  | "null" => some .null
  | "or" => some .or
  | _ => none

def token : QueryOp → String
  | .lt => "<"
  | .lte => "<="
  | .eq => "="
  | .ne => "!="
  | .gt => ">"
  | .gte => ">="
  | .among => "in"
  | .notAmong => "not in"
  | .like => "like"
  | .null => "null"
  | .or => "or"

theorem ofToken?_token (op : QueryOp) : ofToken? op.token = some op := by
  cases op <;> rfl

def isMembership : QueryOp → Bool
  | .among | .notAmong => true
  | _ => false

def members (column : String) : Value → Except Error (List Value)
  | .list items => .ok (items.map Value.bare)
  | other => .error (.operand column "list" other.kindName)

def comparing (op : Comparison) (column : String) (value : Value) :
    Except Error (Option Condition) :=
  .ok (some (.compare column op value))

def matching (column : String) : Value → Except Error (Option Condition)
  | .text pattern => .ok (some (.like column pattern))
  | other => .error (.operand column "text" other.kindName)

/-- `true` asks for null rows and `false` for all others; any other value asks for nothing. -/
def nullness (column : String) : Value → Option Condition
  | .bool true => some (.isNull column)
  | .bool false => some (.isNotNull column)
  | _ => none

/-- Makes the leaf of a column and a non-empty value, or none if the value asks for nothing. `or`
has no leaf. -/
def leaf? : QueryOp → Option (String → Value → Except Error (Option Condition))
  | .eq => some (comparing .eq)
  | .ne => some (comparing .ne)
  | .lt => some (comparing .lt)
  | .lte => some (comparing .lte)
  | .gt => some (comparing .gt)
  | .gte => some (comparing .gte)
  | .among => some fun column value => do return some (.among column (← members column value))
  | .notAmong => some fun column value => do return some (.notAmong column (← members column value))
  | .like => some matching
  | .null => some fun column value => .ok (nullness column value)
  | .or => none

end QueryOp

end Criteria
