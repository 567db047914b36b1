import Criteria.Keyed
import Criteria.Value.Basic

set_option autoImplicit false

namespace Criteria

structure Fragment where
  sql : String
  params : List Value

inductive Assignment where
  | set (value : Value)
  | compute (fragment : Fragment)

abbrev Assignments := Keyed Assignment

inductive Dialect where
  | mysql
  | sqlite
deriving DecidableEq

namespace Dialect

def name : Dialect → String
  | .mysql => "mysql"
  | .sqlite => "sqlite"

def ofName? : String → Option Dialect
  | "mysql" => some .mysql
  | "sqlite" => some .sqlite
  | _ => none

/-- Merges a document into a column: a null or empty column takes it as it is. The document is bound
twice. -/
def mergeSql (d : Dialect) (column : String) : String :=
  match d with
  | .mysql =>
    s!"CASE WHEN (`{column}` IS NULL OR `{column}` = '') THEN CAST(? AS JSON) " ++
      s!"ELSE JSON_MERGE_PATCH(`{column}`, CAST(? AS JSON)) END"
  | .sqlite =>
    s!"CASE WHEN (\"{column}\" IS NULL OR \"{column}\" = '') THEN json(?) " ++
      s!"ELSE json_patch(\"{column}\", json(?)) END"

variable {d e : Dialect} {column other : String}

/-- A placeholder for each of the two times the document is bound; the rest are the column's own. -/
theorem count_mergeSql (d : Dialect) (column : String) :
    (d.mergeSql column).toList.count '?' = 2 + 3 * column.toList.count '?' := by
  -- not by its equations, which take seconds to make for texts of this length
  delta mergeSql
  cases d <;>
  · simp only [toString, String.toList_append, List.count_append, String.reduceToList]
    generalize column.toList.count '?' = k
    change 0 + k + 0 + k + 1 + (0 + k + 1) = 2 + 3 * k
    omega

theorem infix_mergeSql (d : Dialect) (column : String) :
    column.toList <:+: (d.mergeSql column).toList := by
  have hparts : ∃ before after, d.mergeSql column = before ++ column ++ after := by
    delta mergeSql
    cases d <;> exact ⟨_, _, by simp only [toString, String.append_assoc]; rfl⟩
  obtain ⟨before, after, h⟩ := hparts
  rw [h, String.toList_append, String.toList_append]
  exact List.infix_append _ _ _

theorem mergeSql_inj : d.mergeSql column = e.mergeSql other ↔ d = e ∧ column = other := by
  constructor
  · intro h
    have htext : (d.mergeSql column).toList = (e.mergeSql other).toList := congrArg _ h
    delta mergeSql at htext
    cases d <;> cases e <;>
      simp only [toString, String.toList_append, List.append_assoc,
        String.reduceToList] at htext
    case mysql.sqlite => exact absurd (List.append_inj_left htext rfl) (by decide)
    case sqlite.mysql => exact absurd (List.append_inj_left htext rfl) (by decide)
    all_goals
      have hlength := congrArg List.length htext
      simp only [List.length_append] at hlength
      exact ⟨rfl, String.toList_inj.1
        (List.append_inj_left (List.append_cancel_left htext) (by omega))⟩
  · rintro ⟨rfl, rfl⟩
    rfl

end Dialect

end Criteria
