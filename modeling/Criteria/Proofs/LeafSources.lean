import Criteria.Proofs.ConditionMeaning
import Criteria.Proofs.Conformance
import Criteria.Proofs.PlanTargets
import Criteria.Proofs.WalkPlaces

/-!
Where the leaves of a condition come from, and that alternatives stay together. A built condition can
be labelled so that its leaves, from left to right, are exactly those found on the walk, each with the
address of its field. A conjunction stands only at the top and separates leaves of different entries, so
it never separates leaves from below one group, or from below one element of a group.

A flattened field adds the entries of its struct to those of the record around it, whatever its query
token: below `or` on such a field the leaves are conjoined like all others of the record.
-/

set_option autoImplicit false

namespace Criteria

/-- A condition whose leaves tell where in a snapshot they were found. -/
inductive SourcedCondition where
  | leaf (address : Address) (c : Condition)
  | all (children : List SourcedCondition)
  | any (children : List SourcedCondition)

namespace SourcedCondition

mutual

def condition : SourcedCondition → Condition
  | .leaf _ c => c
  | .all children => .all (conditions children)
  | .any children => .any (conditions children)

def conditions : List SourcedCondition → List Condition
  | [] => []
  | child :: children => condition child :: conditions children

end

mutual

def leaves : SourcedCondition → List (Address × Condition)
  | .leaf address c => [(address, c)]
  | .all children => leavesOf children
  | .any children => leavesOf children

def leavesOf : List SourcedCondition → List (Address × Condition)
  | [] => []
  | child :: children => leaves child ++ leavesOf children

end

mutual

def moved (f : Address → Address) : SourcedCondition → SourcedCondition
  | .leaf address c => .leaf (f address) c
  | .all children => .all (movedAll f children)
  | .any children => .any (movedAll f children)

def movedAll (f : Address → Address) : List SourcedCondition → List SourcedCondition
  | [] => []
  | child :: children => moved f child :: movedAll f children

end

def join (conjunctive : Bool) : List SourcedCondition → Option SourcedCondition
  | [] => none
  | [only] => some only
  | first :: second :: rest =>
    if conjunctive then some (.all (first :: second :: rest))
    else some (.any (first :: second :: rest))

inductive Apart (a b : Address) : SourcedCondition → Prop where
  | split {children : List SourcedCondition} {i j : Nat} {t u : SourcedCondition}
      (hi : children[i]? = some t) (hj : children[j]? = some u) (hne : i ≠ j)
      (ha : a ∈ t.leaves.map Prod.fst) (hb : b ∈ u.leaves.map Prod.fst) :
    Apart a b (.all children)
  | all {children : List SourcedCondition} {t : SourcedCondition} (ht : t ∈ children)
      (h : Apart a b t) : Apart a b (.all children)
  | any {children : List SourcedCondition} {t : SourcedCondition} (ht : t ∈ children)
      (h : Apart a b t) : Apart a b (.any children)

variable {f : Address → Address} {a b : Address} {ts us : List SourcedCondition}

theorem conditions_eq_map : ∀ ts, conditions ts = ts.map condition
  | [] => rfl
  | t :: ts => congrArg (condition t :: ·) (conditions_eq_map ts)

theorem leavesOf_eq_flatMap : ∀ ts, leavesOf ts = ts.flatMap leaves
  | [] => rfl
  | t :: ts => congrArg (leaves t ++ ·) (leavesOf_eq_flatMap ts)

theorem movedAll_eq_map (f : Address → Address) : ∀ ts, movedAll f ts = ts.map (moved f)
  | [] => rfl
  | t :: ts => congrArg (moved f t :: ·) (movedAll_eq_map f ts)

theorem conditions_append (ts us : List SourcedCondition) :
    conditions (ts ++ us) = conditions ts ++ conditions us := by
  simp only [conditions_eq_map, List.map_append]

theorem leavesOf_append (ts us : List SourcedCondition) :
    leavesOf (ts ++ us) = leavesOf ts ++ leavesOf us := by
  simp only [leavesOf_eq_flatMap, List.flatMap_append]

mutual

theorem condition_moved (f : Address → Address) : ∀ t, condition (moved f t) = condition t
  | .leaf _ _ => rfl
  | .all children => congrArg Condition.all (conditions_movedAll f children)
  | .any children => congrArg Condition.any (conditions_movedAll f children)

theorem conditions_movedAll (f : Address → Address) :
    ∀ ts, conditions (movedAll f ts) = conditions ts
  | [] => rfl
  | t :: ts => congrArg₂ List.cons (condition_moved f t) (conditions_movedAll f ts)

end

mutual

theorem leaves_moved (f : Address → Address) :
    ∀ t, leaves (moved f t) = (leaves t).map fun x => (f x.1, x.2)
  | .leaf _ _ => rfl
  | .all children => leavesOf_movedAll f children
  | .any children => leavesOf_movedAll f children

theorem leavesOf_movedAll (f : Address → Address) :
    ∀ ts, leavesOf (movedAll f ts) = (leavesOf ts).map fun x => (f x.1, x.2)
  | [] => rfl
  | t :: ts => by
    rw [movedAll, leavesOf, leavesOf, List.map_append, leaves_moved f t, leavesOf_movedAll f ts]

end

theorem conditions_join (conjunctive : Bool) (ts : List SourcedCondition) :
    conditions (join conjunctive ts).toList = (Condition.join conjunctive (conditions ts)).toList := by
  match ts with
  | [] => rfl
  | [only] => rfl
  | first :: second :: rest => cases conjunctive <;> rfl

theorem leavesOf_join (conjunctive : Bool) (ts : List SourcedCondition) :
    leavesOf (join conjunctive ts).toList = leavesOf ts := by
  match ts with
  | [] => rfl
  | [only] => rfl
  | first :: second :: rest => cases conjunctive <;> exact List.append_nil _

/-- In a choice there is no conjunction. -/
theorem not_apart_of_choice {t : SourcedCondition} (h : t.condition.Choice) : ¬ Apart a b t := by
  intro hapart
  induction hapart with
  | split => cases h with | leaf h => cases h
  | all => cases h with | leaf h => cases h
  | any ht hapart ih =>
    cases h with
    | leaf h => cases h
    | any _ hchildren =>
      refine ih (hchildren _ ?_)
      rw [conditions_eq_map]
      exact List.mem_map_of_mem ht

/-- The conditions with the places of what is marked: their leaves are the marked ones in their order,
and those of different conditions have different first steps. -/
structure Sources (marks : Address → Condition → Prop) (cs : List Condition)
    (ts : List SourcedCondition) : Prop where
  conditions : conditions ts = cs
  lists : Lists marks (leavesOf ts)
  heads : ts.Pairwise fun t u => ∀ x ∈ t.leaves, ∀ y ∈ u.leaves, x.1.head? ≠ y.1.head?

namespace Sources

variable {marks head tail : Address → Condition → Prop} {cs ds : List Condition}

theorem nil (h : ∀ address c, ¬ marks address c) : Sources marks [] [] :=
  ⟨rfl, Lists.nil h, List.Pairwise.nil⟩

theorem congr {other : Address → Condition → Prop} (h : Sources marks cs ts)
    (hiff : ∀ address c, other address c ↔ marks address c) : Sources other cs ts :=
  ⟨h.conditions, h.lists.congr hiff, h.heads⟩

theorem join (h : Sources marks cs ts) :
    Sources marks (Condition.join false cs).toList (SourcedCondition.join false ts).toList := by
  refine ⟨?_, ?_, ?_⟩
  · rw [conditions_join, h.conditions]
  · rw [leavesOf_join]
    exact h.lists
  · cases SourcedCondition.join false ts with
    | none => exact List.Pairwise.nil
    | some t => exact List.pairwise_singleton _ t

/-- A leaf at the root, or none. -/
theorem leaf {made : Option Condition}
    (h : ∀ address c, marks address c ↔ address = [] ∧ made = some c) :
    Sources marks made.toList (made.map (SourcedCondition.leaf [])).toList := by
  cases made with
  | none => exact nil (by simp [h])
  | some c =>
    refine ⟨rfl, ⟨List.pairwise_singleton _ _, fun address d => ?_⟩, List.pairwise_singleton _ _⟩
    rw [h]
    simp [leavesOf, SourcedCondition.leaves, eq_comm]

theorem append (hs : Splits marks head tail) {t : Option SourcedCondition}
    (hc : Sources head cs t.toList) (hd : Sources tail ds us) :
    Sources marks (cs ++ ds) (movedAll (0 :: ·) t.toList ++ movedAll nextTree us) := by
  have hbelow : ∀ u ∈ us, ∀ x ∈ u.leaves, ∃ i address, x.1 = i :: address := by
    rintro u hu ⟨address, c⟩ hx
    have hmark := (hd.lists.mem_iff address c).1
      (leavesOf_eq_flatMap us ▸ List.mem_flatMap.2 ⟨u, hu, hx⟩)
    cases address with
    | nil => exact absurd hmark (hs.tailNone c)
    | cons i address => exact ⟨i, address, rfl⟩
  constructor
  · rw [conditions_append, conditions_movedAll, conditions_movedAll, hc.conditions, hd.conditions]
  · rw [leavesOf_append, leavesOf_movedAll, leavesOf_movedAll]
    exact Lists.append hs hc.lists hd.lists
  · rw [movedAll_eq_map, movedAll_eq_map, List.pairwise_append]
    refine ⟨?_, ?_, ?_⟩
    · cases t with
      | none => exact List.Pairwise.nil
      | some t => exact List.pairwise_singleton _ _
    · rw [List.pairwise_map]
      refine hd.heads.imp_of_mem fun {u v} hu hv h => ?_
      rw [leaves_moved, leaves_moved]
      intro x hx y hy
      obtain ⟨x, hxu, rfl⟩ := List.mem_map.1 hx
      obtain ⟨y, hyv, rfl⟩ := List.mem_map.1 hy
      obtain ⟨i, restx, hi⟩ := hbelow u hu x hxu
      obtain ⟨j, resty, hj⟩ := hbelow v hv y hyv
      have hne := h x hxu y hyv
      rw [hi, hj] at hne ⊢
      simpa [nextTree] using hne
    · intro t ht v hv x hx y hy
      obtain ⟨t, -, rfl⟩ := List.mem_map.1 ht
      obtain ⟨u, hu, rfl⟩ := List.mem_map.1 hv
      rw [leaves_moved] at hx hy
      obtain ⟨x, -, rfl⟩ := List.mem_map.1 hx
      obtain ⟨y, hyu, rfl⟩ := List.mem_map.1 hy
      obtain ⟨j, rest, hj⟩ := hbelow u hu y hyu
      simp [hj, nextTree]

theorem exists_join {built : Condition} (h : Sources marks cs ts)
    (hjoin : Condition.join true cs = some built) :
    ∃ t, SourcedCondition.join true ts = some t ∧ t.condition = built := by
  have hconditions := conditions_join true ts
  rw [h.conditions, hjoin] at hconditions
  cases ht : SourcedCondition.join true ts with
  | none =>
    rw [ht] at hconditions
    cases hconditions
  | some t =>
    rw [ht] at hconditions
    exact ⟨t, rfl, (List.cons.inj hconditions).1⟩

/-- Leaves with the same first step are not set apart by the conjunction of conditions that are choices
themselves. -/
theorem not_apart (h : Sources marks cs ts) (hchoice : ∀ c ∈ cs, c.Choice) {t : SourcedCondition}
    (ht : SourcedCondition.join true ts = some t) (hhead : a.head? = b.head?) : ¬ Apart a b t := by
  have hchildren : ∀ child ∈ ts, child.condition.Choice := by
    intro child hchild
    refine hchoice _ ?_
    rw [← h.conditions, conditions_eq_map]
    exact List.mem_map_of_mem hchild
  have hsame : ∀ {i j : Nat} {t u : SourcedCondition} {x y : Address}, ts[i]? = some t →
      ts[j]? = some u → i < j → x ∈ t.leaves.map Prod.fst → y ∈ u.leaves.map Prod.fst →
      x.head? ≠ y.head? := by
    intro i j t u x y hi hj hlt hx hy
    obtain ⟨hilt, rfl⟩ := List.getElem?_eq_some_iff.1 hi
    obtain ⟨hjlt, rfl⟩ := List.getElem?_eq_some_iff.1 hj
    obtain ⟨x, hxt, rfl⟩ := List.mem_map.1 hx
    obtain ⟨y, hyu, rfl⟩ := List.mem_map.1 hy
    exact List.pairwise_iff_getElem.1 h.heads i j hilt hjlt hlt x hxt y hyu
  intro hapart
  -- Only the top can be a conjunction: every child is a choice, which has none inside.
  match ts with
  | [] => cases ht
  | [only] =>
    obtain rfl := Option.some.inj ht
    exact not_apart_of_choice (hchildren only List.mem_cons_self) hapart
  | first :: second :: rest =>
    obtain rfl := Option.some.inj ht
    cases hapart with
    | split hi hj hne ha hb =>
      rcases Nat.lt_or_gt_of_ne hne with hlt | hlt
      · exact hsame hi hj hlt ha hb hhead
      · exact hsame hj hi hlt hb ha hhead.symm
    | all hchild hapart => exact not_apart_of_choice (hchildren _ hchild) hapart

end Sources

end SourcedCondition

namespace WalkPlace

variable {e : Plan.Entry} {value : Value}

theorem makes_column_iff {column : String} {made : Option Condition}
    (htarget : e.target = .column column) (hleaf : Condition.leaf e column value = .ok made)
    (c : Condition) : Makes (.field e value) c ↔ made = some c := by
  constructor
  · rintro ⟨htarget', hmade⟩
    obtain rfl := Target.column.inj (htarget'.symm.trans htarget)
    exact Except.ok.inj (hleaf.symm.trans hmade)
  · rintro rfl
    exact .leaf htarget hleaf

theorem not_makes_group {type : TypeId} (htarget : e.target = .group type) (c : Condition) :
    ¬ Makes (.field e value) c := by
  rintro ⟨htarget', -⟩
  cases htarget'.symm.trans htarget

theorem not_makes_element (plan : Plan) (item : Value) (c : Condition) :
    ¬ Makes (.element plan item) c := nofun

end WalkPlace

namespace Condition

open Schema SourcedCondition

theorem sources_column {s : Schema} {r : Record} {e : Plan.Entry} {rest : List Plan.Entry}
    {value : Value} {column : String} {made : Option Condition} {cs : List Condition}
    {ts : List SourcedCondition} (hset : r.given? e.path = some value)
    (htarget : e.target = .column column) (hleaf : leaf e column value = .ok made)
    (hrest : Sources (s.Finds WalkPlace.Makes r rest) cs ts) :
    Sources (s.Finds WalkPlace.Makes r (e :: rest)) (made.toList ++ cs)
      (movedAll (0 :: ·) (made.map (SourcedCondition.leaf [])).toList ++ movedAll nextTree ts) := by
  refine (Sources.leaf fun address c => ?_).append (splits_finds s _ r e rest) hrest
  rw [finds_column_iff hset htarget, WalkPlace.makes_column_iff htarget hleaf]

/-- Both walks build conditions whose leaves are those found on the walk. -/
theorem exists_sources (s : Schema) :
    (∀ (r : Record) (entries : List Plan.Entry) (cs : List Condition),
      (parts r entries).run s.plan = .ok cs →
      ∃ ts, Sources (s.Finds WalkPlace.Makes r entries) cs ts) ∧
    (∀ (plan : Plan) (items : List Value) (cs : List Condition),
      (branches plan items).run s.plan = .ok cs →
      ∃ ts, Sources (s.ItemsFind WalkPlace.Makes plan items) cs ts) := by
  refine built_induction s.plan ?done ?unset ?column ?group ?none ?record
  case done => exact fun r => ⟨[], .nil fun _ _ => not_finds_nil⟩
  case unset =>
    rintro r e rest cs hunset ⟨ts, hts⟩
    have hnone : Sources (fun address => s.Finds WalkPlace.Makes r (e :: rest) (0 :: address)) []
        (none : Option SourcedCondition).toList := .nil (not_finds_unset hunset rest)
    exact ⟨_, hnone.append (splits_finds s _ r e rest) hts⟩
  case column =>
    rintro r e rest value column made cs hset htarget hleaf ⟨ts, hts⟩
    exact ⟨_, sources_column hset htarget hleaf hts⟩
  case group =>
    rintro r e rest value type plan ds cs hset htarget hplan ⟨us, hus⟩ ⟨ts, hts⟩
    refine ⟨_, (hus.join.congr fun address c => ?_).append (splits_finds s _ r e rest) hts⟩
    simp [finds_group_iff hset htarget, WalkPlace.not_makes_group htarget, hplan]
  case none => exact fun plan => ⟨[], .nil fun _ _ => not_itemsFind_nil⟩
  case record =>
    rintro plan item rest r ds cs hitem ⟨us, hus⟩ ⟨ts, hts⟩
    refine ⟨_, (hus.join.congr fun address c => ?_).append (splits_itemsFind s _ plan item rest) hts⟩
    simp [itemsFind_zero_iff, WalkPlace.not_makes_element, hitem]

end Condition

namespace Schema

inductive RecordAt (s : Schema) (r : Record) (plan : Plan) : Address → Plan → Prop where
  | root : RecordAt s r plan [] plan
  | element {address : Address} {inner : Plan} {item : Value}
      (h : s.Meets r plan.entries address (.element inner item)) : RecordAt s r plan address inner

/-- A leaf is found at or below an entry of a declared field, or of what the field embeds. The record is
at the address `record`, and the field at `field` among the declarations of its struct. -/
def ComesFrom (s : Schema) (plan : Plan) (record field leaf : Address) : Prop :=
  ∃ i below e address site, leaf = record ++ i :: below ∧ plan.entries[i]? = some e ∧
    s.EntryAt plan e address site ∧ field <+: address

variable {s : Schema} {plan : Plan} {type : TypeId} {a b field : Address} {site : Site}

theorem Reaches.eq_of_not_embedded {fields : List Declaration} {address : Address} {below : Site}
    (h : s.Reaches fields field site) (hown : site.declaration.embedded = false)
    (hbelow : s.Reaches fields address below) (hstart : field <+: address) : below = site := by
  induction h generalizing address below with
  | here hd =>
    cases hbelow with
    | here hd' =>
      obtain ⟨rfl, -⟩ := List.cons_prefix_cons.1 hstart
      obtain rfl := Option.some.inj (hd.symm.trans hd')
      rfl
    | inside hd' hembeds =>
      obtain ⟨rfl, -⟩ := List.cons_prefix_cons.1 hstart
      obtain rfl := Option.some.inj (hd.symm.trans hd')
      cases hown.symm.trans hembeds.1
  | inside hd hembeds hsite ih =>
    cases hbelow with
    | here hd' =>
      obtain ⟨-, hnil⟩ := List.cons_prefix_cons.1 hstart
      exact absurd (List.prefix_nil.1 hnil) hsite.address_ne_nil
    | inside hd' hembeds' hbelow =>
      obtain ⟨rfl, hrest⟩ := List.cons_prefix_cons.1 hstart
      obtain rfl := Option.some.inj (hd.symm.trans hd')
      obtain rfl := Shape.struct.inj (hembeds.2.symm.trans hembeds'.2)
      rw [ih hown hbelow hrest]

theorem ComesFrom.head?_eq_of_record {record : Address} (ha : s.ComesFrom plan record field a)
    (hb : s.ComesFrom plan record field b) (hrecord : record ≠ []) : a.head? = b.head? := by
  obtain ⟨i, belowa, -, -, -, rfl, -⟩ := ha
  obtain ⟨j, belowb, -, -, -, rfl, -⟩ := hb
  rw [List.head?_append_of_ne_nil _ hrecord, List.head?_append_of_ne_nil _ hrecord]

/-- Leaves from below a field of its own have the first step in common: there is one entry for it. -/
theorem ComesFrom.head?_eq (hplan : s.plan type = .ok plan)
    (hfield : s.Reaches (s.fieldsOf plan.type) field site) (hown : site.declaration.embedded = false)
    (ha : s.ComesFrom plan [] field a) (hb : s.ComesFrom plan [] field b) : a.head? = b.head? := by
  obtain ⟨i, belowa, e, _, sitea, rfl, hi, he, hstarta⟩ := ha
  obtain ⟨j, belowb, f, _, siteb, rfl, hj, hf, hstartb⟩ := hb
  have hsitea := hfield.eq_of_not_embedded hown he.reached hstarta
  have hsiteb := hfield.eq_of_not_embedded hown hf.reached hstartb
  have hname : e.name = f.name := by rw [he.declared.name, hf.declared.name, hsitea, hsiteb]
  have hlt : i < (plan.entries.map (·.name)).length := by
    rw [List.length_map]
    exact (List.getElem?_eq_some_iff.1 hi).1
  -- Both entries come from one declaration, and names within a plan are distinct.
  have hij : i = j := by
    refine (List.getElem?_inj hlt (nodup_names_plan hplan)).1 ?_
    simp [hi, hj, hname]
  rw [hij]
  rfl

end Schema

namespace Condition

open Schema SourcedCondition

/-- A condition built through any cache of any host never has leaves from below one `or` field in
different children of a conjunction, if the field is no flattened one of the snapshot itself. The leaves
of `t` are those found on the walk, so `t` has the leaves of the condition at their right places. -/
theorem not_apart_of_or (s : Schema) (actions : List Action) (id : CacheId) {value : Value}
    {built : Condition}
    (h : ((ofValue value).runIn s ((Host.after s actions).cache id)).result = .ok (some built)) :
    ∃ r plan, ∃ t : SourcedCondition, value.normalize = .ok r ∧ s.plan r.type = .ok plan ∧
      t.condition = built ∧
      Lists (s.Finds WalkPlace.Makes r plan.entries) t.leaves ∧
      ∀ record inner field site, s.RecordAt r plan record inner →
        s.Reaches (s.fieldsOf inner.type) field site → site.declaration.queryToken = "or" →
        (site.declaration.embedded = false ∨ record ≠ []) →
        ∀ a b, s.ComesFrom inner record field a → s.ComesFrom inner record field b →
          ¬ t.Apart a b := by
  rw [(CacheStep.transparent_runIn _).result _ (Host.sound_cache_after s actions id)] at h
  cases hr : value.normalize with
  | error e =>
    rw [run_ofValue_error _ hr] at h
    cases h
  | ok r =>
    rw [run_ofValue_record _ hr] at h
    obtain ⟨plan, hplan, h⟩ := bind_eq_ok.1 h
    obtain ⟨cs, hparts, hjoin⟩ := map_eq_ok.1 h
    obtain ⟨ts, hts⟩ := (exists_sources s).1 r plan.entries cs hparts
    have hchoice := ((yields_parts_branches s).1 r plan.entries cs hparts).choice
    obtain ⟨t, ht, hbuilt⟩ := hts.exists_join hjoin
    have hleaves : t.leaves = SourcedCondition.leavesOf ts := by
      rw [← leavesOf_join true ts, ht]
      exact (List.append_nil _).symm
    refine ⟨r, plan, t, rfl, hplan, hbuilt, hleaves ▸ hts.lists, ?_⟩
    intro record inner field site hrecord hfield _ hown a b ha hb
    refine hts.not_apart hchoice ht ?_
    rcases hown with hown | hbelow
    · cases hrecord with
      | root => exact ComesFrom.head?_eq hplan hfield hown ha hb
      | element hmeets => exact ha.head?_eq_of_record hb hmeets.address_ne_nil
    · exact ha.head?_eq_of_record hb hbelow

def anyField : Declaration := ⟨"any", .list (.struct 0), false, ⟨none, some "or", none⟩⟩

/-- The labels of the two alternatives are not set apart. -/
theorem clause_alternatives_together :
    ((ofValue (clause "a" [clause "b" [], clause "c" []])).runIn clauses
        ((Host.after clauses []).cache 0)).result =
          .ok (some (.all [labelled "a", .any [labelled "b", labelled "c"]])) ∧
      ∃ t : SourcedCondition, t.condition = .all [labelled "a", .any [labelled "b", labelled "c"]] ∧
        ¬ t.Apart [1, 0, 0] [1, 1, 0] := by
  have hbuilt : ((ofValue (clause "a" [clause "b" [], clause "c" []])).runIn clauses
      ((Host.after clauses []).cache 0)).result =
        .ok (some (.all [labelled "a", .any [labelled "b", labelled "c"]])) := by cbv
  obtain ⟨r, plan, t, hr, hplan, ht, -, hapart⟩ := not_apart_of_or clauses [] 0 hbuilt
  obtain rfl := Except.ok.inj hr
  obtain ⟨e, he, hentry⟩ : ∃ e, plan.entries[1]? = some e ∧
      clauses.EntryAt plan e [1] ⟨[], [anyField.name], anyField⟩ := by
    have hclause : clauses.plan 0 = .ok ⟨0, [⟨"label", ["label"], .column "label", none, none,
        [("column", "label")]⟩, anyField.entry ["any"] (.group 0)]⟩ := by cbv
    obtain rfl := Except.ok.inj (hplan.symm.trans hclause)
    exact ⟨_, rfl, .here rfl, rfl, Declaration.declaredBy_entry ["any"] (by decide) (by decide)⟩
  have hcomes : ∀ below, clauses.ComesFrom plan [] [1] (1 :: below) := fun below =>
    ⟨1, below, e, [1], _, rfl, he, hentry, List.prefix_refl _⟩
  exact ⟨hbuilt, t, ht, hapart [] plan [1] _ .root hentry.reached rfl (.inl rfl) _ _ (hcomes _)
    (hcomes _)⟩

def flatSearch : Schema :=
  ⟨[⟨"Search", [⟨"either", .struct 1, true, ⟨none, some "or", none⟩⟩]⟩,
    ⟨"Either", [⟨"a", .int, false, ⟨some "a", none, none⟩⟩,
      ⟨"b", .int, false, ⟨some "b", none, none⟩⟩]⟩]⟩

def flatSearchPlan : Plan :=
  ⟨0, [⟨"a", ["either", "a"], .column "a", none, none, [("column", "a")]⟩,
    ⟨"b", ["either", "b"], .column "b", none, none, [("column", "b")]⟩]⟩

def flatSearchRecord : Record := ⟨0, [("either", .record 1 [("a", .int 1), ("b", .int 2)])]⟩

/-- Both leaves come from below the flattened field, and the conjunction sets them apart. -/
theorem flatSearch_apart :
    flatSearch.plan 0 = .ok flatSearchPlan ∧
      flatSearch.Conforms (.struct 0) (.record 0 flatSearchRecord.fields) ∧
      ∃ t : SourcedCondition,
        ((ofValue (.record 0 flatSearchRecord.fields)).runIn flatSearch
          ((Host.after flatSearch []).cache 0)).result = .ok (some t.condition) ∧
        Lists (flatSearch.Finds WalkPlace.Makes flatSearchRecord flatSearchPlan.entries) t.leaves ∧
        ∃ site, flatSearch.Reaches (flatSearch.fieldsOf 0) [0] site ∧
          site.declaration.queryToken = "or" ∧
          flatSearch.ComesFrom flatSearchPlan [] [0] [0] ∧
          flatSearch.ComesFrom flatSearchPlan [] [0] [1] ∧ t.Apart [0] [1] := by
  have hinner : flatSearch.Conforms (.struct 1) (.record 1 [("a", .int 1), ("b", .int 2)]) :=
    .struct rfl (by simp [flatSearch, fieldsOf, struct?, Conforms.int])
  have hconforms : flatSearch.Conforms (.struct 0) (.record 0 flatSearchRecord.fields) :=
    .struct rfl (by simpa [flatSearch, flatSearchRecord, fieldsOf, struct?] using hinner)
  have hsources := sources_column (s := flatSearch) (r := flatSearchRecord)
    (e := ⟨"a", ["either", "a"], .column "a", none, none, [("column", "a")]⟩) rfl rfl rfl
    (sources_column (e := ⟨"b", ["either", "b"], .column "b", none, none, [("column", "b")]⟩) rfl rfl
      rfl (.nil fun _ _ => not_finds_nil))
  have hcomes : ∀ i d, (flatSearch.fieldsOf 1)[i]? = some d → d.fault? = none →
      ∀ target, d.role? = some (.entry target) →
      flatSearchPlan.entries[i]? = some (d.entry ["either", d.name] target) →
      flatSearch.ComesFrom flatSearchPlan [] [0] [i] := by
    intro i d hd hfault target hrole he
    have hreaches : flatSearch.Reaches (flatSearch.fieldsOf 0) [0, i] _ :=
      .inside rfl ⟨rfl, rfl⟩ (.here hd)
    exact ⟨i, [], _, [0, i], _, rfl, he,
      ⟨hreaches, rfl, Declaration.declaredBy_entry _ hfault hrole⟩, ⟨[i], rfl⟩⟩
  refine ⟨by cbv, hconforms, .all [.leaf [0] (.compare "a" .eq (.int 1)),
    .leaf [1] (.compare "b" .eq (.int 2))], by cbv, hsources.lists, _, .here rfl, rfl, ?_, ?_, ?_⟩
  · exact hcomes 0 _ rfl (by decide) _ rfl rfl
  · exact hcomes 1 _ rfl (by decide) _ rfl rfl
  · exact .split (i := 0) (j := 1) rfl rfl (by decide) List.mem_cons_self List.mem_cons_self

end Condition

end Criteria
