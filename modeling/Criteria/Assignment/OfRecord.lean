import Criteria.Assignment.Basic
import Criteria.Plan.Lookup

set_option autoImplicit false

namespace Criteria.Assignments

/-- The assignment of a set column field, or none if its operator leaves the column out. -/
def assignment (dialect : Dialect) (e : Plan.Entry) (column : String) (value : Value) :
    Except Error (Option Assignment) :=
  match e.update with
  | some op => op.assign column value dialect
  | none => .ok (some (.set value))

def addEntry (dialect : Dialect) (r : Record) (done : Assignments) (e : Plan.Entry) :
    Except Error Assignments :=
  match e.target, r.given? e.path with
  | .column column, some value =>
    (assignment dialect e column value).map fun
      | some a => done.insert column a
      | none => done
  | _, _ => .ok done

def ofRecord (dialect : Dialect) (r : Record) (plan : Plan) : Except Error Assignments :=
  plan.entries.foldlM (addEntry dialect r) Keyed.empty

def ofValue (dialect : Dialect) (value : Value) : Lookup Assignments :=
  match value.normalize with
  | .ok r => Lookup.ask r.type fun plan => Lookup.ofExcept (ofRecord dialect r plan)
  | .error e => Lookup.fail e

end Criteria.Assignments
