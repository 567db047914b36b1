import Criteria.Proofs.ConditionRun

set_option autoImplicit false

namespace Criteria

namespace Condition

mutual

def outline : Condition → Condition
  | .compare column op _ => .compare column op .null
  | .among column _ => .among column []
  | .notAmong column _ => .notAmong column []
  | .all children => .all (outlines children)
  | .any children => .any (outlines children)

def outlines : List Condition → List Condition
  | [] => []
  | child :: children => outline child :: outlines children

end

theorem outlines_eq_map (cs : List Condition) : outlines cs = cs.map outline := by
  induction cs with
  | nil => rw [outlines, List.map_nil]
  | cons c cs ih => rw [outlines, List.map_cons, ih]

theorem outline_join (conjunctive : Bool) (cs : List Condition) :
    (join conjunctive cs).map outline = join conjunctive (cs.map outline) := by
  match cs with
  | [] => rfl
  | [only] => rfl
  | first :: second :: rest =>
    cases conjunctive <;>
      simp only [join, Bool.false_eq_true, ↓reduceIte, Option.map_some, outline, outlines_eq_map,
        List.map_cons]

def outcome (built : Except Error (Option Condition)) : Option (Option Condition) :=
  built.toOption.map (Option.map outline)

def outcomes (built : Except Error (List Condition)) : Option (List Condition) :=
  built.toOption.map (List.map outline)

variable {x y : Except Error (Option Condition)} {xs ys : Except Error (List Condition)}

theorem outcome_eq_of_error {e other : Error} (hx : x = .error e) (hy : y = .error other) :
    outcome x = outcome y := by
  rw [hx, hy]
  rfl

theorem outcomes_eq_cases (h : outcomes xs = outcomes ys) :
    (∃ e other, xs = .error e ∧ ys = .error other) ∨
      ∃ cs ds, xs = .ok cs ∧ ys = .ok ds ∧ cs.map outline = ds.map outline := by
  cases xs with
  | error e =>
    cases ys with
    | error other => exact .inl ⟨e, other, rfl, rfl⟩
    | ok ds => cases h
  | ok cs =>
    cases ys with
    | error other => cases h
    | ok ds => exact .inr ⟨cs, ds, rfl, rfl, Option.some.inj h⟩

theorem outcome_eq_cases (h : outcome x = outcome y) :
    (∃ e other, x = .error e ∧ y = .error other) ∨
      ∃ c d, x = .ok c ∧ y = .ok d ∧ c.map outline = d.map outline := by
  cases x with
  | error e =>
    cases y with
    | error other => exact .inl ⟨e, other, rfl, rfl⟩
    | ok d => cases h
  | ok c =>
    cases y with
    | error other => cases h
    | ok d => exact .inr ⟨c, d, rfl, rfl, Option.some.inj h⟩

theorem outcome_join (conjunctive : Bool) (h : outcomes xs = outcomes ys) :
    outcome (xs.map (join conjunctive)) = outcome (ys.map (join conjunctive)) := by
  rcases outcomes_eq_cases h with ⟨e, other, rfl, rfl⟩ | ⟨cs, ds, rfl, rfl, hsame⟩
  · rfl
  · have hjoin : (join conjunctive cs).map outline = (join conjunctive ds).map outline := by
      rw [outline_join, outline_join, hsame]
    exact congrArg some hjoin

theorem outcomes_append (h : outcome x = outcome y) (hs : outcomes xs = outcomes ys) :
    outcomes (x.bind fun c => xs.map (c.toList ++ ·)) =
      outcomes (y.bind fun c => ys.map (c.toList ++ ·)) := by
  rcases outcome_eq_cases h with ⟨e, other, rfl, rfl⟩ | ⟨c, d, rfl, rfl, hsame⟩
  · rfl
  · rcases outcomes_eq_cases hs with ⟨e, other, rfl, rfl⟩ | ⟨cs, ds, rfl, rfl, hrest⟩
    · rfl
    · have htoList : c.toList.map outline = d.toList.map outline := by
        rw [← Option.toList_map, ← Option.toList_map, hsame]
      have happend : (c.toList ++ cs).map outline = (d.toList ++ ds).map outline := by
        rw [List.map_append, List.map_append, htoList, hrest]
      exact congrArg some happend

theorem outcomes_branches {cs ds : Except Error (List Condition)} (h : outcomes xs = outcomes ys)
    (hs : outcomes cs = outcomes ds) :
    outcomes (xs.bind fun made => cs.map ((join false made).toList ++ ·)) =
      outcomes (ys.bind fun made => ds.map ((join false made).toList ++ ·)) := by
  have hjoin : ∀ xs cs : Except Error (List Condition),
      (xs.bind fun made => cs.map ((join false made).toList ++ ·)) =
        (xs.map (join false)).bind fun c => cs.map (c.toList ++ ·) := by
    intro xs cs
    cases xs <;> rfl
  rw [hjoin, hjoin]
  exact outcomes_append (outcome_join false h) hs

end Condition

end Criteria
