import Criteria.Proofs.AssignmentContent
import Criteria.Proofs.ConditionMeaning
import Criteria.Proofs.PlanTargets
import Criteria.Proofs.WalkQuestions

set_option autoImplicit false

namespace Criteria

namespace QueryOp

variable {op : QueryOp} {make : String → Value → Except Error (Option Condition)} {column : String}
  {value : Value}

theorem exists_leaf? (h : op ≠ .or) : ∃ make, op.leaf? = some make := by
  cases op <;> first | exact ⟨_, rfl⟩ | exact absurd rfl h

/-- All that an operator makes of a value: a leaf, or a failure that names the column. Only the test
for null rows may make nothing, of a value that is no boolean. -/
theorem leaf?_cases (hmake : op.leaf? = some make) (column : String) (value : Value) :
    (∃ c, make column value = .ok (some c)) ∨
    (op = .null ∧ value.bool? = none ∧ make column value = .ok none) ∨
    ∃ expected found, make column value = .error (.operand column expected found) := by
  cases op <;> simp only [leaf?, Option.some.injEq, reduceCtorEq] at hmake <;> subst hmake
  case like =>
    cases value with
    | text pattern => exact .inl ⟨_, rfl⟩
    | _ => exact .inr (.inr ⟨_, _, rfl⟩)
  case among =>
    cases value with
    | list items => exact .inl ⟨_, rfl⟩
    | _ => exact .inr (.inr ⟨_, _, rfl⟩)
  case notAmong =>
    cases value with
    | list items => exact .inl ⟨_, rfl⟩
    | _ => exact .inr (.inr ⟨_, _, rfl⟩)
  case null =>
    cases value with
    | bool b => cases b <;> exact .inl ⟨_, rfl⟩
    | _ => exact .inr (.inl ⟨rfl, rfl, rfl⟩)
  all_goals exact .inl ⟨_, rfl⟩

end QueryOp

theorem Plan.Entry.query_eq_of_queryOp {e : Plan.Entry} {op : QueryOp} (h : e.queryOp = op)
    (hne : op ≠ .eq) : e.query = some op := by
  unfold Plan.Entry.queryOp at h
  cases hquery : e.query with
  | none => exact absurd (by rw [← h, hquery]; rfl) hne
  | some other =>
    rw [hquery] at h
    exact congrArg some h

namespace Schema

variable {s : Schema} {r : Record} {entries : List Plan.Entry} {address : Address} {place : WalkPlace}
  {plan : Plan} {type : TypeId} {e : Plan.Entry} {value : Value} {column : String}

/-- Every field on the walk is an entry of some plan. -/
theorem Meets.exists_plan (h : s.Meets r entries address place) (hplan : s.plan type = .ok plan)
    (hentries : entries = plan.entries) (hfield : place = .field e value) :
    ∃ owner found, s.plan owner = .ok found ∧ e ∈ found.entries := by
  induction h generalizing type plan with
  | field h hset =>
    obtain ⟨rfl, -⟩ := WalkPlace.field.inj hfield
    exact ⟨type, plan, hplan, hentries ▸ List.mem_of_getElem? h⟩
  | element => cases hfield
  | inside h hset htarget hinnerPlan hitem hinner hbelow ih => exact ih hinnerPlan rfl hfield

/-- All that a column entry of a plan makes of a value. Its operator is known and is not `or`. -/
theorem leaf_cases (hplan : s.plan type = .ok plan) (he : e ∈ plan.entries)
    (htarget : e.target = .column column) (value : Value) :
    (∃ make, e.queryOp.leaf? = some make) ∧
    ((∃ c, Condition.leaf e column value = .ok (some c)) ∨
      (e.query = some .null ∧ value.bool? = none ∧ Condition.leaf e column value = .ok none) ∨
      ∃ expected found, Condition.leaf e column value = .error (.operand column expected found)) := by
  obtain ⟨address, site, hentry⟩ := exists_entryAt hplan he
  have hor : e.queryOp ≠ .or := by
    intro hop
    have hquery : e.query = some .or := Plan.Entry.query_eq_of_queryOp hop (by decide)
    have hgroup := hentry.declared.groupQuery.2 hquery
    simp [Plan.Entry.group?, htarget] at hgroup
  obtain ⟨make, hmake⟩ := QueryOp.exists_leaf? hor
  refine ⟨⟨make, hmake⟩, ?_⟩
  have hleaf : Condition.leaf e column value = make column value := by
    rw [Condition.leaf, hmake]
  rw [hleaf]
  rcases QueryOp.leaf?_cases hmake column value with h | ⟨hop, h⟩ | h
  · exact .inl h
  · exact .inr (.inl ⟨Plan.Entry.query_eq_of_queryOp hop (by decide), h⟩)
  · exact .inr (.inr h)

/-- A type is refused for an unknown query operator only if the token is that of no operator. -/
theorem token_ne_of_plan_eq_error {name token : String}
    (h : s.plan type = .error (.declaration name (.unknownQuery token))) (op : QueryOp) :
    op.token ≠ token := by
  have hwalk := map_eq_error.1 h
  obtain ⟨address, ⟨site, fault, -, hfault, heq⟩, -⟩ :=
    ((failsFirst_entriesOf s [type] [] (s.fieldsOf type) []).error_iff _).1 hwalk
  obtain ⟨-, rfl⟩ := Error.declaration.inj heq
  cases hfault.offends with
  | rule hrule => cases hrule with | unknownQuery _ hquery => exact hquery op

/-- What fails on the walk over a snapshot never says that a known operator is unknown. -/
theorem Failures.ne_unknownQuery {error : Error} (h : s.Failures value address error) (name : String)
    (op : QueryOp) : error ≠ .declaration name (.unknownQuery op.token) := by
  have hnormalize : ∀ {item : Value} {e : Error}, item.normalize = .error e →
      e ≠ .declaration name (.unknownQuery op.token) := by
    intro item e hitem
    unfold Value.normalize at hitem
    split at hitem
    · cases hitem
    · obtain rfl := Except.error.inj hitem
      simp
  rintro rfl
  cases h with
  | input hvalue => exact hnormalize hvalue rfl
  | plan _ hplan => exact token_ne_of_plan_eq_error hplan op rfl
  | place _ hplan hfinds =>
    obtain ⟨place, hmeets, hfails⟩ := hfinds
    cases hfails with
    | plan _ hplan => exact token_ne_of_plan_eq_error hplan op rfl
    | record hitem => exact hnormalize hitem rfl
    | leaf htarget hleaf =>
      obtain ⟨owner, found, hfound, he⟩ := hmeets.exists_plan hplan rfl rfl
      obtain ⟨-, ⟨c, h⟩ | ⟨-, -, h⟩ | ⟨expected, kind, h⟩⟩ := leaf_cases hfound he htarget _
      all_goals cases hleaf.symm.trans h

end Schema

namespace Condition

open Schema

variable {s : Schema} {r : Record} {entries : List Plan.Entry} {address : Address}

/-- A leaf that is found on the walk is one that an entry gives. -/
theorem gives_of_finds {c : Condition} (h : s.Finds WalkPlace.Makes r entries address c) :
    ∃ e ∈ entries, Gives s r e c := by
  obtain ⟨place, hmeets, hmakes⟩ := h
  induction hmeets with
  | field h hset =>
    cases hmakes with
    | leaf htarget hleaf => exact ⟨_, List.mem_of_getElem? h, .leaf htarget hset hleaf⟩
  | element => cases hmakes
  | inside h hset htarget hplan hitem hinner _ ih =>
    obtain ⟨entry, hentry, hgives⟩ := ih hmakes
    exact ⟨_, List.mem_of_getElem? h,
      .nested htarget hset hplan (List.mem_of_getElem? hitem) hinner hentry hgives⟩

theorem leavesOf_join (conjunctive : Bool) (cs : List Condition) :
    leavesOf (join conjunctive cs).toList = leavesOf cs := by
  match cs with
  | [] => rfl
  | [only] => rfl
  | first :: second :: rest => cases conjunctive <;> exact List.append_nil _

/-- Each column of the walk that is set has its leaf in the condition, unless its operator makes
none. -/
theorem leaf_mem_of_run {value : Value} {plan : Plan} {built : Option Condition}
    (hvalue : value.normalize = .ok r) (hplan : s.plan r.type = .ok plan)
    (h : (ofValue value).run s.plan = .ok built) {e : Plan.Entry} {given : Value} {column : String}
    (hmeets : s.Meets r plan.entries address (.field e given)) (htarget : e.target = .column column) :
    (e.query = some .null ∧ given.bool? = none) ∨
      ∃ c whole, leaf e column given = .ok (some c) ∧ built = some whole ∧ c ∈ leaves whole := by
  obtain ⟨owner, found, hfound, he⟩ := hmeets.exists_plan hplan rfl rfl
  have hnone := (walks_ofValue s value).failsFirst.ok_iff.1 ⟨built, h⟩
  obtain ⟨-, ⟨c, hleaf⟩ | ⟨hnull, hbool, -⟩ | ⟨expected, kind, hleaf⟩⟩ :=
    leaf_cases hfound he htarget given
  · rw [run_ofValue_record _ hvalue, hplan] at h
    obtain ⟨cs, hparts, rfl⟩ := map_eq_ok.1 h
    have hmem := (((yields_parts_branches s).1 r plan.entries cs hparts).leaves c).2
      (gives_of_finds ⟨_, hmeets, .leaf htarget hleaf⟩)
    rw [← leavesOf_join true cs] at hmem
    obtain ⟨whole, hwhole, hc⟩ := mem_leavesOf.1 hmem
    exact .inr ⟨c, whole, hleaf, Option.mem_toList.1 hwhole, hc⟩
  · exact .inl ⟨hnull, hbool⟩
  · exact absurd (.place hvalue hplan ⟨_, hmeets, .leaf htarget hleaf⟩) (hnone address _)

end Condition

/-- A set field has what a builder needs: a group has its type, and a column has an operator, whose leaf
is in the condition that is built. The leaf may be missing only for `null` with no boolean. -/
inductive Plan.Entry.Serves (e : Plan.Entry) (given : Value)
    (condition : Except Error (Option Condition)) : Prop where
  | group {type : TypeId} (htype : e.group? = some type) : Serves e given condition
  | column {column : String} {make : String → Value → Except Error (Option Condition)}
      (hcolumn : e.column? = some column) (hmake : e.queryOp.leaf? = some make)
      (hleaf : ∀ built, condition = .ok built → (e.query = some .null ∧ given.bool? = none) ∨
        ∃ c whole, make column given = .ok (some c) ∧ built = some whole ∧ c ∈ Condition.leaves whole) :
    Serves e given condition

namespace Schema

/-- Each entry of a plan is found by its name, which is the last step to it, and is a column or a group
as its declaration says. So builders find what they need at each set field, on any snapshot and through
any cache of any host: no operator is missing, and no set field is left out by mistake. -/
theorem entries_serve_builders (s : Schema) {type : TypeId} {plan : Plan}
    (hplan : s.plan type = .ok plan) :
    (∀ e ∈ plan.entries, plan.find? e.name = some e ∧ e.path.getLast? = some e.name ∧
      ∃ address site, s.EntryAt plan e address site) ∧
    ∀ actions id dialect value r, value.normalize = .ok r → r.type = type →
      let cache := (Host.after s actions).cache id
      let condition := ((Condition.ofValue value).runIn s cache).result
      let update := ((Assignments.ofValue dialect value).runIn s cache).result
      (∀ name (op : QueryOp), condition ≠ .error (.declaration name (.unknownQuery op.token))) ∧
      (∀ address e given, s.Meets r plan.entries address (.field e given) →
        e.Serves given condition) ∧
      ∀ assigned, update = .ok assigned → ∀ e ∈ plan.entries, ∀ column given,
        e.column? = some column → r.given? e.path = some given →
          ∃ a, assigned.get? column = some a := by
  refine ⟨fun e he => ?_, ?_⟩
  · obtain ⟨address, site, hentry⟩ := exists_entryAt hplan he
    exact ⟨Plan.find?_name (nodup_names_plan hplan) he, hentry.getLast?_path, address, site, hentry⟩
  · rintro actions id dialect value r hvalue rfl cache condition update
    have hcache : cache.Sound s := Host.sound_cache_after s actions id
    have hcondition : condition = (Condition.ofValue value).run s.plan :=
      (CacheStep.transparent_runIn _).result _ hcache
    have hupdate : update = (Assignments.ofValue dialect value).run s.plan :=
      (CacheStep.transparent_runIn _).result _ hcache
    refine ⟨fun name op herror => ?_, fun address e given hmeets => ?_, ?_⟩
    · have hfirst := ((Condition.walks_ofValue s value).failsFirst.error_iff _).1
        (hcondition.symm.trans herror)
      obtain ⟨address, hfails⟩ := hfirst.exists
      exact hfails.ne_unknownQuery name op rfl
    · cases htarget : e.target with
      | group type => exact .group (Plan.Entry.group?_eq_some_iff.2 htarget)
      | column column =>
        obtain ⟨owner, found, hfound, he⟩ := hmeets.exists_plan hplan rfl rfl
        obtain ⟨⟨make, hmake⟩, -⟩ := leaf_cases hfound he htarget given
        refine .column (Plan.Entry.column?_eq_some_iff.2 htarget) hmake fun built hbuilt => ?_
        have hleaf : Condition.leaf e column given = make column given := by
          rw [Condition.leaf, hmake]
        rw [← hleaf]
        exact Condition.leaf_mem_of_run hvalue hplan (hcondition.symm.trans hbuilt) hmeets htarget
    · intro assigned hassigned e he column given hcolumn hgiven
      rw [hupdate, Assignments.run_ofValue_record hvalue hplan] at hassigned
      have htarget := Plan.Entry.column?_eq_some_iff.1 hcolumn
      exact (Assignments.exists_get?_iff hassigned).2 ⟨e, he, given, htarget, hgiven⟩

end Schema

namespace Condition

def labelEntry : Plan.Entry := ⟨"label", ["label"], .column "label", none, none, [("column", "label")]⟩

def clausePlan : Plan :=
  ⟨0, [labelEntry, ⟨"any", ["any"], .group 0, some .or, none, [("query", "or")]⟩]⟩

/-- The label of the only alternative is served. -/
theorem nested_label_served :
    clauses.plan 0 = .ok clausePlan ∧
      clausePlan.find? "label" = some labelEntry ∧
      ((ofValue (clause "a" [clause "b" []])).runIn clauses ((Host.after clauses []).cache 0)).result =
        .ok (some (.all [labelled "a", labelled "b"])) ∧
      labelEntry.Serves (.text "b") (.ok (some (.all [labelled "a", labelled "b"]))) := by
  have hplan : clauses.plan 0 = .ok clausePlan := by cbv
  have hbuilt : ((ofValue (clause "a" [clause "b" []])).runIn clauses
      ((Host.after clauses []).cache 0)).result = .ok (some (.all [labelled "a", labelled "b"])) := by
    cbv
  obtain ⟨hentries, hbuilders⟩ := clauses.entries_serve_builders hplan
  obtain ⟨-, hserves, -⟩ := hbuilders [] 0 .mysql (clause "a" [clause "b" []]) _ rfl rfl
  have hmeets : clauses.Meets ⟨0, [("label", .text "a"), ("any", .list [clause "b" []])]⟩
      clausePlan.entries [1, 0, 0] (.field labelEntry (.text "b")) :=
    .inside rfl rfl rfl hplan rfl rfl (.field rfl rfl)
  have hserved := hserves [1, 0, 0] labelEntry (.text "b") hmeets
  rw [hbuilt] at hserved
  exact ⟨hplan, (hentries labelEntry List.mem_cons_self).1, hbuilt, hserved⟩

end Condition

end Criteria
