import Mathlib
import Criteria.Proofs.AddedType
import Criteria.Proofs.PlanWalk

/-!
Planning with one stack. All calls that plan embedded structs may share a stack of the structs being
embedded: a struct is pushed before its fields are walked and popped after it, but not if they fail. Every
call finds distinct structs on the stack, its own on top, and leaves it as it was if it succeeds. So a field is
tested against the structs around it, whatever was walked before it, and calls nest no deeper than there are
types, however these refer to one another.
-/

set_option autoImplicit false

namespace Criteria.Schema

structure StackCall where
  type : TypeId
  entered : List TypeId
  left : List TypeId
  tests : List (TypeId × Bool)
  result : Except Error (List Plan.Entry)

structure StackRun where
  result : Except Error (List Plan.Entry)
  stack : List TypeId
  tests : List (TypeId × Bool)
  calls : List StackCall

def StackRun.after (inner : TypeId) (calls : List StackCall) (run : StackRun) : StackRun :=
  { run with tests := (inner, false) :: run.tests, calls := calls ++ run.calls }

def StackRun.returned (type : TypeId) (entered : List TypeId) (run : StackRun) : StackRun :=
  { run with calls := run.calls ++ [⟨type, entered, run.stack, run.tests, run.result⟩] }

/-- Walks fields on a stack; `embed` plans an embedded struct that was put on top of it, or is too deep. -/
def walkOn (s : Schema) (embed : List String → TypeId → List TypeId → Option StackRun)
    (path : List String) :
    List Declaration → List Plan.Entry → List TypeId → Option StackRun
  | [], done, stack => some ⟨.ok done, stack, [], []⟩
  | d :: rest, done, stack =>
    let here := path ++ [d.name]
    let fail := fun fault => .error (.declaration (String.intercalate "." here) fault)
    if !d.isDeclared then s.walkOn embed path rest done stack
    else
      match d.fault?, d.role? with
      | some fault, _ => some ⟨fail fault, stack, [], []⟩
      | none, none => some ⟨fail .missingColumn, stack, [], []⟩
      | none, some (.entry target) =>
        s.walkOn embed path rest (Plan.redeclare (d.entry here target) done) stack
      | none, some (.embeds inner) =>
        if inner ∈ stack then
          some ⟨fail (.recursiveFlatten (s.nameOf inner)), stack, [(inner, true)], []⟩
        else
          match embed here inner (stack ++ [inner]) with
          | none => none
          | some run =>
            match run.result with
            | .error e => some ⟨.error e, run.stack, [(inner, false)], run.calls⟩
            | .ok found =>
              (s.walkOn embed path rest (Plan.fill found done) run.stack.dropLast).map
                (.after inner run.calls)

def enter (s : Schema) : Nat → List String → TypeId → List TypeId → Option StackRun
  | 0, _, _, _ => none
  | depth + 1, path, type, stack =>
    (s.walkOn (s.enter depth) path (s.fieldsOf type) [] stack).map (.returned type stack)

/-- The types of the table, with the asked one and those that fields only mention. -/
def known (s : Schema) (root : TypeId) : Finset TypeId :=
  insert root (Finset.range s.size ∪ s.referenced.toFinset)

def verdicts (stack : List TypeId) (fields : List Declaration) : List (TypeId × Bool) :=
  (fields.filterMap fun d =>
    match d.role? with
    | some (.embeds inner) => some inner
    | _ => none).map fun inner => (inner, decide (inner ∈ stack))

/-- The stack holds distinct structs, with the called one on top. It is what each field is tested against, and a
call that succeeds leaves it behind. -/
structure StackCall.Disciplined (s : Schema) (call : StackCall) : Prop where
  distinct : call.entered.Nodup
  top : call.entered.getLast? = some call.type
  tests : call.tests <+: verdicts call.entered (s.fieldsOf call.type)
  restores : ∀ entries, call.result = .ok entries →
    call.left = call.entered ∧ call.tests = verdicts call.entered (s.fieldsOf call.type)

structure StackRun.Plans (s : Schema) (path : List String) (fields : List Declaration)
    (done : List Plan.Entry) (stack : List TypeId) (run : StackRun) : Prop where
  result : run.result = s.entriesOf stack path fields done
  tests : run.tests <+: verdicts stack fields
  restores : ∀ entries, run.result = .ok entries → run.stack = stack ∧ run.tests = verdicts stack fields
  calls : ∀ call ∈ run.calls, call.Disciplined s

variable {s : Schema} {root type inner : TypeId} {path : List String} {fields rest : List Declaration}
  {d : Declaration} {done : List Plan.Entry} {stack : List TypeId} {run : StackRun}
  {types : Finset TypeId} {depth : Nat}
  {embed embedMore : List String → TypeId → List TypeId → Option StackRun}

theorem mem_referenced (h : d ∈ s.fieldsOf type) (hembeds : d.Embeds inner) : inner ∈ s.referenced := by
  obtain ⟨struct, hstruct, hd⟩ := mem_fieldsOf h
  have hshape : d.shape.embedded? = some inner := Shape.embedded?_eq_some_iff.2 hembeds.2
  exact List.mem_flatMap.2
    ⟨struct, hstruct, List.mem_append_left _ (List.mem_filterMap.2 ⟨d, hd, hshape⟩)⟩

theorem card_known (hroot : root < s.size) (hreferenced : ∀ type ∈ s.referenced, type < s.size) :
    (s.known root).card = s.size := by
  have hsub : s.referenced.toFinset ⊆ Finset.range s.size := fun type htype =>
    Finset.mem_range.2 (hreferenced type (List.mem_toFinset.1 htype))
  rw [known, Finset.union_eq_left.2 hsub, Finset.insert_eq_of_mem (Finset.mem_range.2 hroot),
    Finset.card_range]

section Steps

variable {embedded : StackRun}

theorem walkOn_undeclared (h : d.isDeclared = false) :
    s.walkOn embed path (d :: rest) done stack = s.walkOn embed path rest done stack := by
  rw [walkOn]
  simp [h]

theorem walkOn_fault {fault : Fault} (hdeclared : d.isDeclared = true) (h : d.fault? = some fault) :
    s.walkOn embed path (d :: rest) done stack =
      some ⟨.error (.declaration (String.intercalate "." (path ++ [d.name])) fault), stack, [], []⟩ := by
  rw [walkOn]
  simp [hdeclared, h]

theorem walkOn_entry {target : Target} (h : d.fault? = none) (hrole : d.role? = some (.entry target)) :
    s.walkOn embed path (d :: rest) done stack =
      s.walkOn embed path rest (Plan.redeclare (d.entry (path ++ [d.name]) target) done) stack := by
  rw [walkOn]
  simp [Declaration.isDeclared_of_role? hrole, h, hrole]

theorem walkOn_recursive (h : d.fault? = none) (hrole : d.role? = some (.embeds inner))
    (hstack : inner ∈ stack) : s.walkOn embed path (d :: rest) done stack =
      some ⟨.error (.declaration (String.intercalate "." (path ++ [d.name]))
        (.recursiveFlatten (s.nameOf inner))), stack, [(inner, true)], []⟩ := by
  rw [walkOn]
  simp [Declaration.isDeclared_of_role? hrole, h, hrole, hstack]

theorem walkOn_embeds_error {e : Error} (h : d.fault? = none) (hrole : d.role? = some (.embeds inner))
    (hstack : inner ∉ stack) (hcall : embed (path ++ [d.name]) inner (stack ++ [inner]) = some embedded)
    (hresult : embedded.result = .error e) : s.walkOn embed path (d :: rest) done stack =
      some ⟨.error e, embedded.stack, [(inner, false)], embedded.calls⟩ := by
  rw [walkOn]
  simp [Declaration.isDeclared_of_role? hrole, h, hrole, hstack, hcall, hresult]

theorem walkOn_embeds_ok {found : List Plan.Entry} (h : d.fault? = none)
    (hrole : d.role? = some (.embeds inner)) (hstack : inner ∉ stack)
    (hcall : embed (path ++ [d.name]) inner (stack ++ [inner]) = some embedded)
    (hresult : embedded.result = .ok found) : s.walkOn embed path (d :: rest) done stack =
      (s.walkOn embed path rest (Plan.fill found done) embedded.stack.dropLast).map
        (.after inner embedded.calls) := by
  rw [walkOn]
  simp [Declaration.isDeclared_of_role? hrole, h, hrole, hstack, hcall, hresult]

end Steps

theorem verdicts_cons_of_not_embedded (h : d.embedded = false) :
    verdicts stack (d :: rest) = verdicts stack rest := by
  have hrole : ∀ inner, d.role? ≠ some (.embeds inner) := by
    intro inner hembeds
    rw [(Declaration.embeds_iff_role?.2 hembeds).1] at h
    cases h
  unfold verdicts
  rw [List.filterMap_cons_none]
  split
  · rename_i inner hembeds
    exact absurd hembeds (hrole inner)
  · rfl

theorem verdicts_cons_embeds (h : d.role? = some (.embeds inner)) :
    verdicts stack (d :: rest) = (inner, decide (inner ∈ stack)) :: verdicts stack rest := by
  unfold verdicts
  rw [List.filterMap_cons_some (by rw [h]), List.map_cons]

namespace StackRun.Plans

theorem finished : (StackRun.mk (.ok done) stack [] []).Plans s path [] done stack :=
  ⟨by rw [entriesOf], List.nil_prefix, fun _ _ => ⟨rfl, rfl⟩, fun _ hcall => absurd hcall List.not_mem_nil⟩

/-- A walk that fails; what it leaves on the stack does not matter any more. -/
theorem failed {e : Error} {left : List TypeId} {tests : List (TypeId × Bool)} {calls : List StackCall}
    (h : s.entriesOf stack path fields done = .error e) (htests : tests <+: verdicts stack fields)
    (hcalls : ∀ call ∈ calls, call.Disciplined s) :
    (StackRun.mk (.error e) left tests calls).Plans s path fields done stack :=
  ⟨h.symm, htests, nofun, hcalls⟩

/-- A walk that passes a field and goes on as the walk over the rest. -/
theorem passed {next : List Plan.Entry} (hd : d.embedded = false) (h : run.Plans s path rest next stack)
    (heq : s.entriesOf stack path (d :: rest) done = s.entriesOf stack path rest next) :
    run.Plans s path (d :: rest) done stack := by
  have hverdicts : verdicts stack (d :: rest) = verdicts stack rest := verdicts_cons_of_not_embedded hd
  exact ⟨h.result.trans heq.symm, hverdicts ▸ h.tests, hverdicts ▸ h.restores, h.calls⟩

theorem after {inside : List String} {next : List Plan.Entry} {embedded : StackRun}
    (hrole : d.role? = some (.embeds inner)) (hnew : inner ∉ stack)
    (hinner : embedded.Plans s inside (s.fieldsOf inner) [] (stack ++ [inner]))
    (h : run.Plans s path rest next stack)
    (heq : s.entriesOf stack path (d :: rest) done = s.entriesOf stack path rest next) :
    (run.after inner embedded.calls).Plans s path (d :: rest) done stack := by
  have hverdicts : verdicts stack (d :: rest) = (inner, false) :: verdicts stack rest := by
    rw [verdicts_cons_embeds hrole, decide_eq_false hnew]
  refine ⟨h.result.trans heq.symm, ?tests, ?restores, ?calls⟩
  case tests =>
    rw [hverdicts]
    exact (List.prefix_cons_inj _).2 h.tests
  case restores =>
    intro entries hok
    obtain ⟨hstack, htests⟩ := h.restores entries hok
    exact ⟨hstack, hverdicts ▸ congrArg ((inner, false) :: ·) htests⟩
  case calls =>
    intro call hcall
    rcases List.mem_append.1 hcall with hinside | hrest
    · exact hinner.calls call hinside
    · exact h.calls call hrest

theorem returned (hdistinct : stack.Nodup) (htop : stack.getLast? = some type)
    (h : run.Plans s path (s.fieldsOf type) [] stack) :
    (run.returned type stack).Plans s path (s.fieldsOf type) [] stack := by
  refine ⟨h.result, h.tests, h.restores, ?_⟩
  intro call hcall
  rcases List.mem_append.1 hcall with hinside | hlast
  · exact h.calls call hinside
  · obtain rfl := List.mem_singleton.1 hlast
    exact ⟨hdistinct, htop, h.tests, h.restores⟩

end StackRun.Plans

/-- One embedded field: its struct is refused or entered, and what is popped after a call that succeeds is what
was pushed before it. -/
theorem exists_walkOn_embeds (hfault : d.fault? = none) (hrole : d.role? = some (.embeds inner))
    (hembed : inner ∉ stack → ∃ run, embed (path ++ [d.name]) inner (stack ++ [inner]) = some run ∧
      run.Plans s (path ++ [d.name]) (s.fieldsOf inner) [] (stack ++ [inner]))
    (hrest : ∀ next, ∃ run, s.walkOn embed path rest next stack = some run ∧
      run.Plans s path rest next stack) :
    ∃ run, s.walkOn embed path (d :: rest) done stack = some run ∧
      run.Plans s path (d :: rest) done stack := by
  have htested : ∀ verdict, decide (inner ∈ stack) = verdict →
      [(inner, verdict)] <+: verdicts stack (d :: rest) := by
    rintro verdict rfl
    rw [verdicts_cons_embeds hrole]
    exact (List.prefix_cons_inj _).2 List.nil_prefix
  by_cases hstack : inner ∈ stack
  · exact ⟨_, walkOn_recursive hfault hrole hstack, .failed (entriesOf_recursive hfault hrole hstack done)
      (htested true (decide_eq_true hstack)) fun _ hcall => absurd hcall List.not_mem_nil⟩
  · obtain ⟨embedded, hcall, hplans⟩ := hembed hstack
    have hwalk : s.entriesOf stack path (d :: rest) done = embedded.result.bind fun found =>
        s.entriesOf stack path rest (Plan.fill found done) := by
      rw [entriesOf_embeds hfault hrole hstack, hplans.result]
    cases hresult : embedded.result with
    | error e =>
      rw [hresult] at hwalk
      exact ⟨_, walkOn_embeds_error hfault hrole hstack hcall hresult,
        .failed hwalk (htested false (decide_eq_false hstack)) hplans.calls⟩
    | ok found =>
      rw [hresult] at hwalk
      have hpopped : embedded.stack.dropLast = stack := by
        rw [(hplans.restores found hresult).1, List.dropLast_concat]
      obtain ⟨run, hrun, hafter⟩ := hrest (Plan.fill found done)
      refine ⟨run.after inner embedded.calls, ?_, .after hrole hstack hplans hafter hwalk⟩
      rw [walkOn_embeds_ok hfault hrole hstack hcall hresult, hpopped, hrun, Option.map_some]

/-- Fields are walked to an end if every new struct that they embed can be entered from this stack: each of
them finds this stack again. -/
theorem exists_walkOn
    (hembed : ∀ path, ∀ inner ∈ types, inner ∉ stack → ∃ run, embed path inner (stack ++ [inner]) = some run ∧
      run.Plans s path (s.fieldsOf inner) [] (stack ++ [inner]))
    (hfields : ∀ d ∈ fields, ∀ inner, d.Embeds inner → inner ∈ types) (path : List String)
    (done : List Plan.Entry) :
    ∃ run, s.walkOn embed path fields done stack = some run ∧ run.Plans s path fields done stack := by
  induction fields generalizing done with
  | nil => exact ⟨_, rfl, .finished⟩
  | cons d rest ih =>
    obtain ⟨hd, hrest⟩ := List.forall_mem_cons.1 hfields
    cases hdeclared : d.isDeclared with
    | false =>
      obtain ⟨run, hrun, hplans⟩ := ih hrest done
      exact ⟨run, (walkOn_undeclared hdeclared).trans hrun,
        hplans.passed (Declaration.not_embedded_of_undeclared hdeclared) (entriesOf_undeclared hdeclared done)⟩
    | true =>
      cases hfault : d.fault? with
      | some fault =>
        exact ⟨_, walkOn_fault hdeclared hfault, .failed (entriesOf_fault hdeclared hfault done)
          List.nil_prefix fun _ hcall => absurd hcall List.not_mem_nil⟩
      | none =>
        obtain ⟨role, hrole⟩ := Option.ne_none_iff_exists'.1 (Declaration.role?_ne_none hfault)
        cases role with
        | entry target =>
          obtain ⟨run, hrun, hplans⟩ := ih hrest (Plan.redeclare (d.entry (path ++ [d.name]) target) done)
          exact ⟨run, (walkOn_entry hfault hrole).trans hrun,
            hplans.passed (Declaration.not_embedded_of_entry hrole) (entriesOf_entry hfault hrole done)⟩
        | embeds inner =>
          have hinner := hd inner (Declaration.embeds_iff_role?.2 hrole)
          exact exists_walkOn_embeds hfault hrole (hembed _ inner hinner) (ih hrest)

/-- Calls may nest as deep as there are types off the stack, since each of them puts another one on it. -/
theorem exists_enter (hclosed : ∀ type ∈ types, ∀ d ∈ s.fieldsOf type, ∀ inner, d.Embeds inner → inner ∈ types)
    (hdistinct : stack.Nodup) (htop : stack.getLast? = some type) (hstack : ∀ type ∈ stack, type ∈ types)
    (hdepth : types.card < depth + stack.length) (path : List String) :
    ∃ run, s.enter depth path type stack = some run ∧
      run.Plans s path (s.fieldsOf type) [] stack := by
  induction depth generalizing path type stack with
  | zero =>
    have hsub : stack.toFinset ⊆ types := fun type htype => hstack type (List.mem_toFinset.1 htype)
    have hcard := Finset.card_le_card hsub
    rw [List.toFinset_card_of_nodup hdistinct] at hcard
    omega
  | succ depth ih =>
    have hinner : ∀ path, ∀ inner ∈ types, inner ∉ stack →
        ∃ run, s.enter depth path inner (stack ++ [inner]) = some run ∧
          run.Plans s path (s.fieldsOf inner) [] (stack ++ [inner]) := by
      intro path inner hinner hnew
      refine ih (hdistinct.append (List.nodup_singleton inner) ?_) List.getLast?_concat ?_ ?_ path
      · exact List.disjoint_singleton.2 hnew
      · exact List.forall_mem_append.2 ⟨hstack, List.forall_mem_singleton.2 hinner⟩
      · rw [List.length_append, List.length_singleton]
        omega
    have htype := hstack type (List.mem_of_getLast? htop)
    obtain ⟨run, hrun, hplans⟩ := exists_walkOn hinner (hclosed type htype) path []
    refine ⟨run.returned type stack, ?_, hplans.returned hdistinct htop⟩
    rw [Schema.enter, hrun, Option.map_some]

theorem walkOn_mono (hmore : ∀ path type stack run, embed path type stack = some run →
      embedMore path type stack = some run)
    (path : List String) (fields : List Declaration) (done : List Plan.Entry) (stack : List TypeId) :
    ∀ run, s.walkOn embed path fields done stack = some run →
      s.walkOn embedMore path fields done stack = some run := by
  fun_induction s.walkOn embed path fields done stack with
  | case1 =>
    intro run h
    exact h
  | case2 d rest done stack hdeclared ih =>
    intro run h
    rw [walkOn_undeclared (by simpa using hdeclared)]
    exact ih run h
  | case3 d rest done stack here fail hdeclared fault hfault =>
    intro run h
    rw [walkOn_fault (by simpa using hdeclared) hfault]
    exact h
  | case4 d rest done stack here fail hdeclared hrole hfault =>
    exact absurd hrole (Declaration.role?_ne_none hfault)
  | case5 d rest done stack here hdeclared target hrole hfault ih =>
    intro run h
    rw [walkOn_entry hfault hrole]
    exact ih run h
  | case6 d rest done stack here fail hdeclared inner hrole hfault hstack =>
    intro run h
    rw [walkOn_recursive hfault hrole hstack]
    exact h
  | case7 =>
    intro run h
    cases h
  | case8 d rest done stack here hdeclared inner hrole hfault hstack embedded hcall e hresult =>
    intro run h
    rw [walkOn_embeds_error hfault hrole hstack (hmore _ _ _ _ hcall) hresult]
    exact h
  | case9 d rest done stack here hdeclared inner hrole hfault hstack embedded hcall found hresult ih =>
    intro run h
    obtain ⟨next, hnext, rfl⟩ := Option.map_eq_some_iff.1 h
    rw [walkOn_embeds_ok hfault hrole hstack (hmore _ _ _ _ hcall) hresult, ih next hnext, Option.map_some]

/-- A run does not change when more calls may be open. -/
theorem enter_mono {more : Nat} (hmore : depth ≤ more) (h : s.enter depth path type stack = some run) :
    s.enter more path type stack = some run := by
  induction depth generalizing more path type stack run with
  | zero => cases h
  | succ depth ih =>
    obtain ⟨more, rfl⟩ := Nat.exists_eq_add_of_le' (Nat.lt_of_lt_of_le (Nat.succ_pos depth) hmore)
    have hnext : depth ≤ more := Nat.le_of_succ_le_succ hmore
    obtain ⟨walked, hwalked, rfl⟩ := Option.map_eq_some_iff.1 h
    have hmorewalked := walkOn_mono (fun _ _ _ _ => ih hnext) _ _ _ _ _ hwalked
    rw [Schema.enter, hmorewalked, Option.map_some]

/-- On every schema, planning a type with one stack ends with no more calls open at once than there are types,
and its result is the plan or its error. Every call finds distinct structs on the stack, its own on top, tests
all that its fields embed against these, and leaves the stack as it was if it succeeds. -/
theorem enter_root (s : Schema) (root : TypeId) :
    ∃ run, (∀ depth, (s.known root).card ≤ depth → s.enter depth [] root [root] = some run) ∧
      (root < s.size → (∀ type ∈ s.referenced, type < s.size) → (s.known root).card = s.size) ∧
      run.result = (s.plan root).map (·.entries) ∧
      ∀ call ∈ run.calls, call.Disciplined s := by
  have hclosed : ∀ type ∈ s.known root, ∀ d ∈ s.fieldsOf type, ∀ inner, d.Embeds inner →
      inner ∈ s.known root := by
    intro type _ d hd inner hembeds
    exact Finset.mem_insert_of_mem
      (Finset.mem_union_right _ (List.mem_toFinset.2 (mem_referenced hd hembeds)))
  have hroot : ∀ type ∈ [root], type ∈ s.known root :=
    List.forall_mem_singleton.2 (Finset.mem_insert_self _ _)
  obtain ⟨run, hrun, hplans⟩ := exists_enter hclosed (List.nodup_singleton root)
    List.getLast?_singleton hroot (Nat.lt_succ_self _) []
  refine ⟨run, fun depth hdepth => enter_mono hdepth hrun, card_known, ?_, hplans.calls⟩
  rw [hplans.result, plan]
  cases s.entriesOf [root] [] (s.fieldsOf root) [] <;> rfl

def linked : Schema :=
  ⟨[⟨"Link", [⟨"id", .int, false, ⟨some "id", none, none⟩⟩, ⟨"from", .struct 1, true, {}⟩,
      ⟨"to", .struct 1, true, {}⟩, ⟨"any", .list (.struct 0), false, ⟨none, some "or", none⟩⟩,
      ⟨"next", .optional (.struct 0), true, {}⟩]⟩,
    ⟨"End", [⟨"node", .text, false, ⟨some "node", none, none⟩⟩]⟩]⟩

/-- The struct that is embedded twice is entered twice, and only the one that embeds itself is refused. -/
theorem enter_linked :
    ∃ run, linked.enter linked.size [] 0 [0] = some run ∧
      run.result = (linked.plan 0).map (·.entries) ∧
      run.result = .error (.declaration "next" (.recursiveFlatten "Link")) ∧
      run.tests = [(1, false), (1, false), (0, true)] ∧
      run.calls.map (fun call => (call.entered, call.left)) = [([0, 1], [0, 1]), ([0, 1], [0, 1]), ([0], [0])] ∧
      ∀ call ∈ run.calls, call.Disciplined linked := by
  obtain ⟨run, hrun, hcard, hresult, hcalls⟩ := enter_root linked 0
  have hknown : (linked.known 0).card = linked.size := hcard (by decide) (by decide)
  have hcalled := hrun linked.size (Nat.le_of_eq hknown)
  have hmade : (linked.enter linked.size [] 0 [0]).map (fun run => (run.result, run.tests,
      run.calls.map fun call => (call.entered, call.left))) = some
        (.error (.declaration "next" (.recursiveFlatten "Link")), [(1, false), (1, false), (0, true)],
          [([0, 1], [0, 1]), ([0, 1], [0, 1]), ([0], [0])]) := by
    cbv
  rw [hcalled, Option.map_some] at hmade
  obtain ⟨herror, hlogged⟩ := Prod.mk.inj (Option.some.inj hmade)
  obtain ⟨htests, hstacks⟩ := Prod.mk.inj hlogged
  exact ⟨run, hcalled, hresult, herror, htests, hstacks, hcalls⟩

end Criteria.Schema
