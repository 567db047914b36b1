import Criteria.Plan.Basic

/-!
From declared fields to a plan. Declarations are taken in order; an embedded struct contributes its
own plan, with the embedding field in front of every path. A struct must not be embedded in itself:
the chain of structs being embedded is kept, and a type already on it is refused. Since every struct
that is entered is new to the chain, the walk ends on every schema, however its types refer to one
another.
-/

set_option autoImplicit false

namespace Criteria

def Declaration.entry (d : Declaration) (path : List String) (target : Target) : Plan.Entry :=
  { name := d.name, path := path, target := target, query := d.query?, update := d.update?,
    written := d.annotations.listing }

namespace Schema

def unvisited (s : Schema) (chain : List TypeId) : Nat :=
  ((List.range s.size).filter fun type => type ∉ chain).length

theorem unvisited_append_lt {s : Schema} {chain : List TypeId} {type : TypeId}
    (hnew : type ∉ chain) (hsize : type < s.size) :
    s.unvisited (chain ++ [type]) < s.unvisited chain := by
  have hfilter : (List.range s.size).filter (fun t => decide (t ∉ chain ++ [type])) =
      ((List.range s.size).filter fun t => decide (t ∉ chain)).filter fun t => t ≠ type := by
    rw [List.filter_filter]
    apply List.filter_congr
    intro t _
    simp only [List.mem_append, List.mem_singleton, not_or]
    grind
  rw [unvisited, unvisited, hfilter, List.length_filter_lt_length_iff_exists]
  exact ⟨type, by simp [hnew, hsize], by simp⟩

theorem fieldsOf_eq_nil {s : Schema} {type : TypeId} (h : ¬ type < s.size) :
    s.fieldsOf type = [] := by
  have : s.types[type]? = none := List.getElem?_eq_none (Nat.not_lt.1 h)
  simp [fieldsOf, struct?, this]

theorem unvisited_append_of_not_lt {s : Schema} {chain : List TypeId} {type : TypeId}
    (h : ¬ type < s.size) : s.unvisited (chain ++ [type]) = s.unvisited chain := by
  have : (List.range s.size).filter (fun t => decide (t ∉ chain ++ [type])) =
      (List.range s.size).filter fun t => decide (t ∉ chain) := by
    apply List.filter_congr
    intro t ht
    have := List.mem_range.1 ht
    simp only [List.mem_append, List.mem_singleton, not_or]
    grind
  rw [unvisited, unvisited, this]

/-- Walks declarations found under `path`, adding to the entries that are already `done`. `chain`
holds the structs being embedded, outermost first. -/
def entriesOf (s : Schema) (chain : List TypeId) (path : List String) :
    List Declaration → List Plan.Entry → Except Error (List Plan.Entry)
  | [], done => .ok done
  | d :: rest, done =>
    let here := path ++ [d.name]
    let fail := fun fault => .error (.declaration (String.intercalate "." here) fault)
    if !d.isDeclared then s.entriesOf chain path rest done
    else
      match d.fault?, d.role? with
      | some fault, _ => fail fault
      | none, none => fail .missingColumn
      | none, some (.entry target) =>
        s.entriesOf chain path rest (Plan.redeclare (d.entry here target) done)
      | none, some (.embeds inner) =>
        if inner ∈ chain then fail (.recursiveFlatten (s.nameOf inner))
        else
          match s.entriesOf (chain ++ [inner]) here (s.fieldsOf inner) [] with
          | .error e => .error e
          | .ok found => s.entriesOf chain path rest (Plan.fill found done)
termination_by fields => (s.unvisited chain, fields.length)
decreasing_by
  all_goals simp_wf
  · exact Prod.Lex.right _ (by simp)
  · exact Prod.Lex.right _ (by simp)
  · rename_i hnew
    by_cases hsize : inner < s.size
    · exact Prod.Lex.left _ _ (unvisited_append_lt hnew hsize)
    · rw [unvisited_append_of_not_lt hsize, fieldsOf_eq_nil hsize]
      exact Prod.Lex.right _ (by simp)
  · exact Prod.Lex.right _ (by simp)

def plan (s : Schema) (type : TypeId) : Except Error Plan :=
  (s.entriesOf [type] [] (s.fieldsOf type) []).map fun entries => ⟨type, entries⟩

end Schema

end Criteria
