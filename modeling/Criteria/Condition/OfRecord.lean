import Criteria.Plan.Lookup
import Criteria.Value.Size

set_option autoImplicit false

namespace Criteria

namespace Condition

def leaf (e : Plan.Entry) (column : String) (value : Value) : Except Error (Option Condition) :=
  match e.queryOp.leaf? with
  | some make => make column value
  | none => .error (.declaration e.name (.unknownQuery e.queryOp.token))

mutual

/-- The conditions that the fields of a record add, in the order of the entries. -/
def parts (r : Record) : List Plan.Entry → Lookup (List Condition)
  | [] => return []
  | e :: entries =>
    match _h : r.given? e.path with
    | none => parts r entries
    | some value => return (← part e value).toList ++ (← parts r entries)
termination_by entries => (sizeOf r.fields, entries.length)
decreasing_by
  · exact Prod.Lex.right _ (by simp)
  · exact Prod.Lex.left _ _ (Record.sizeOf_given?_lt ‹_›)
  · exact Prod.Lex.right _ (by simp)

def part (e : Plan.Entry) (value : Value) : Lookup (Option Condition) :=
  match e.target with
  | .column column => Lookup.ofExcept (leaf e column value)
  | .group type => Lookup.ask type fun plan => group plan value
termination_by (sizeOf value, 1)
decreasing_by exact Prod.Lex.right _ (by simp)

def group (plan : Plan) (value : Value) : Lookup (Option Condition) :=
  match value with
  | .list items => return join false (← branches plan items)
  | other =>
    match _h : other.normalize with
    | .ok r => return join false (← parts r plan.entries)
    | .error e => Lookup.fail e
termination_by (sizeOf value, 0)
decreasing_by
  · exact Prod.Lex.left _ _ (by simp)
  · exact Prod.Lex.left _ _ (Value.sizeOf_normalize_lt ‹_›)

/-- One condition for each element that adds any. -/
def branches (plan : Plan) : List Value → Lookup (List Condition)
  | [] => return []
  | item :: items =>
    match _h : item.normalize with
    | .ok r =>
      return (join false (← parts r plan.entries)).toList ++ (← branches plan items)
    | .error e => Lookup.fail e
termination_by items => (sizeOf items, 0)
decreasing_by
  · have := Value.sizeOf_normalize_lt ‹_›
    exact Prod.Lex.left _ _ (by simp only [List.cons.sizeOf_spec]; omega)
  · exact Prod.Lex.left _ _ (by simp only [List.cons.sizeOf_spec]; omega)

end

theorem parts_nil (r : Record) : parts r [] = .done [] := by
  rw [parts]
  rfl

theorem parts_cons_of_unset {r : Record} {e : Plan.Entry} (entries : List Plan.Entry)
    (h : r.given? e.path = none) : parts r (e :: entries) = parts r entries := by
  rw [parts]
  split
  · rfl
  · simp_all

theorem parts_cons_of_set {r : Record} {e : Plan.Entry} {value : Value}
    (entries : List Plan.Entry) (h : r.given? e.path = some value) :
    parts r (e :: entries) = return (← part e value).toList ++ (← parts r entries) := by
  rw [parts]
  split
  · simp_all
  · rename_i v hv
    obtain rfl : v = value := by simpa [hv] using h
    rfl

theorem group_list (plan : Plan) (items : List Value) :
    group plan (.list items) = return join false (← branches plan items) := by
  rw [group]

theorem group_of_normalize {plan : Plan} {value : Value} {r : Record}
    (h : value.normalize = .ok r) :
    group plan value = return join false (← parts r plan.entries) := by
  cases value with
  | list items => simp [Value.normalize, Value.bare] at h
  | _ =>
    rw [group]
    · split
      · simp_all
      · simp_all
    · simp

theorem branches_cons_of_normalize {plan : Plan} {item : Value} {r : Record}
    (items : List Value) (h : item.normalize = .ok r) :
    branches plan (item :: items) =
      return (join false (← parts r plan.entries)).toList ++ (← branches plan items) := by
  rw [branches]
  split
  · simp_all
  · simp_all

def ofValue (value : Value) : Lookup (Option Condition) :=
  match value.normalize with
  | .ok r => Lookup.ask r.type fun plan => return join true (← parts r plan.entries)
  | .error e => Lookup.fail e

end Condition

end Criteria
