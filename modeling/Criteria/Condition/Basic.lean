import Criteria.Value.Equality

set_option autoImplicit false

namespace Criteria

inductive Comparison where
  | eq
  | ne
  | lt
  | lte
  | gt
  | gte
  | like
deriving DecidableEq

def Comparison.symbol : Comparison → String
  | .eq => "="
  | .ne => "!="
  | .lt => "<"
  | .lte => "<="
  | .gt => ">"
  | .gte => ">="
  | .like => "LIKE"

inductive Condition where
  | compare (column : String) (op : Comparison) (value : Value)
  | among (column : String) (values : List Value)
  | notAmong (column : String) (values : List Value)
  | all (children : List Condition)
  | any (children : List Condition)

namespace Condition

instance : Inhabited Condition := ⟨.all []⟩

def isNull (column : String) : Condition := .compare column .eq .null

def isNotNull (column : String) : Condition := .compare column .ne .null

def like (column pattern : String) : Condition := .compare column .like (.text pattern)

instance : AndOp Condition := ⟨fun a b => .all [a, b]⟩

instance : OrOp Condition := ⟨fun a b => .any [a, b]⟩

/-- Combines sibling conditions: nothing for none, the condition itself for one, and otherwise a
conjunction or a disjunction of all of them. -/
def join (conjunctive : Bool) : List Condition → Option Condition
  | [] => none
  | [only] => some only
  | first :: second :: rest =>
    if conjunctive then some (.all (first :: second :: rest))
    else some (.any (first :: second :: rest))

def isGroup : Condition → Bool
  | .all _ | .any _ => true
  | _ => false

mutual

def leafCount : Condition → Nat
  | .all children => leafCounts children
  | .any children => leafCounts children
  | _ => 1

def leafCounts : List Condition → Nat
  | [] => 0
  | child :: children => leafCount child + leafCounts children

end

mutual

def same : Condition → Condition → Bool
  | .compare c o v, .compare d p w => c == d && o == p && v == w
  | .among c vs, .among d ws => c == d && vs == ws
  | .notAmong c vs, .notAmong d ws => c == d && vs == ws
  | .all as, .all bs => sameChildren as bs
  | .any as, .any bs => sameChildren as bs
  | _, _ => false

def sameChildren : List Condition → List Condition → Bool
  | [], [] => true
  | a :: as, b :: bs => same a b && sameChildren as bs
  | _, _ => false

end

instance : BEq Condition := ⟨same⟩

end Condition

end Criteria
