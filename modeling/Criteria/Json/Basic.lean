import Criteria.Keyed

set_option autoImplicit false

namespace Criteria

structure Json.Whole where
  val : Int
  lower : -0x8000000000000000 ≤ val
  upper : val < 0x10000000000000000
deriving DecidableEq

abbrev Json.Finite := { x : Float // x.isFinite = true }

inductive Json where
  | null
  | bool (b : Bool)
  | whole (n : Json.Whole)
  | float (x : Json.Finite)
  | string (s : String)
  | array (items : List Json)
  | object (members : List (String × Json))

namespace Json

instance : Inhabited Json := ⟨.null⟩

def Whole.ofInt? (n : Int) : Option Whole :=
  if h : -0x8000000000000000 ≤ n ∧ n < 0x10000000000000000 then some ⟨n, h.1, h.2⟩ else none

def Whole.ofInt64 (n : Int64) : Whole :=
  ⟨n.toInt, Int64.le_toInt n, by have := Int64.toInt_lt n; omega⟩

def Whole.ofUInt64 (n : UInt64) : Whole :=
  ⟨n.toNat, by omega, by have := n.toNat_lt; omega⟩

def ofFloat (x : Float) : Json :=
  if h : x.isFinite = true then .float ⟨x, h⟩ else .null

def ofMembers (members : List (String × Json)) : Json :=
  .object (Keyed.ofList members).toList

def isNull : Json → Bool
  | .null => true
  | _ => false

/-- Drops the null members of an object and leaves every other document alone. -/
def withoutNulls : Json → Json
  | .object members => .object (members.filter fun m => !m.2.isNull)
  | other => other

mutual

/-- Equality of documents: numbers of different kinds differ, and fractional numbers are compared as
numbers, so that the two zeros are equal. -/
def same : Json → Json → Bool
  | .null, .null => true
  | .bool a, .bool b => a == b
  | .whole a, .whole b => a == b
  | .float a, .float b => a.val == b.val
  | .string a, .string b => a == b
  | .array a, .array b => sameItems a b
  | .object a, .object b => sameMembers a b
  | _, _ => false

def sameItems : List Json → List Json → Bool
  | [], [] => true
  | a :: as, b :: bs => same a b && sameItems as bs
  | _, _ => false

def sameMembers : List (String × Json) → List (String × Json) → Bool
  | [], [] => true
  | (k, a) :: as, (l, b) :: bs => k == l && same a b && sameMembers as bs
  | _, _ => false

end

instance : BEq Json := ⟨same⟩

end Json

end Criteria
