import Criteria.Assignment.Basic
import Criteria.Json.Printer
import Criteria.Value.Json

set_option autoImplicit false

namespace Criteria

inductive UpdateOp where
  | add
  | sub
  | mergeJson
deriving DecidableEq

namespace UpdateOp

def ofToken? : String → Option UpdateOp
  | "+" => some .add
  | "-" => some .sub
  | "merge_json" => some .mergeJson
  | _ => none

def token : UpdateOp → String
  | .add => "+"
  | .sub => "-"
  | .mergeJson => "merge_json"

theorem ofToken?_token (op : UpdateOp) : ofToken? op.token = some op := by
  cases op <;> rfl

/-- The JSON text that a merge binds. A document is bound as it was serialized and a plain value in
its JSON form; the serialized form of a bare record is unknown. -/
def mergeText (value : Value) : Except Error String :=
  match value.bare with
  | .document outcome => (Value.documentJson outcome).map Json.text
  | .record _ _ => .error (.projection "struct")
  | other => .ok other.toJson.text

/-- The compound assignment of a column, or none for a merge of nothing, which leaves the column
out. -/
def assign (op : UpdateOp) (column : String) (value : Value) (dialect : Dialect) :
    Except Error (Option Assignment) :=
  match op with
  | .add => .ok (some (.compute ⟨column ++ " + ?", [value]⟩))
  | .sub => .ok (some (.compute ⟨column ++ " - ?", [value]⟩))
  | .mergeJson => do
    let json ← mergeText value
    if json.isEmpty then return none
    return some (.compute ⟨dialect.mergeSql column, [.text json, .text json]⟩)

end UpdateOp

end Criteria
