import Criteria.Condition.Basic
import Criteria.Value.Printer

set_option autoImplicit false

namespace Criteria.Condition

def enclosed (group : Bool) (text : List Char) : List Char :=
  if group then '(' :: text ++ [')'] else text

mutual

/-- The characters of the text. Equality with null is spelled `IS NULL`, its opposite
`IS NOT NULL`. -/
def chars : Condition → List Char
  | .compare column .eq .null => column.toList ++ " IS NULL".toList
  | .compare column .ne .null => column.toList ++ " IS NOT NULL".toList
  | .compare column op value =>
    column.toList ++ ' ' :: op.symbol.toList ++ ' ' :: value.chars
  | .among column values => column.toList ++ " IN ".toList ++ (Value.list values).chars
  | .notAmong column values => column.toList ++ " NOT IN ".toList ++ (Value.list values).chars
  | .all children => " AND ".toList.intercalate (childChars children)
  | .any children => " OR ".toList.intercalate (childChars children)

def childChars : List Condition → List (List Char)
  | [] => []
  | child :: children => enclosed child.isGroup (chars child) :: childChars children

end

def text (c : Condition) : String := String.ofList c.chars

end Criteria.Condition
