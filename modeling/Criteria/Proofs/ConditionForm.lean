import Criteria.Proofs.BuilderExits
import Criteria.Proofs.LeafSources

set_option autoImplicit false

namespace Criteria

namespace Condition

def children : Condition → List Condition
  | .all cs => cs
  | .any cs => cs
  | _ => []

def isAll : Condition → Bool
  | .all _ => true
  | _ => false

mutual

def nodes : Condition → List Condition
  | .all cs => .all cs :: nodesOf cs
  | .any cs => .any cs :: nodesOf cs
  | leaf => [leaf]

def nodesOf : List Condition → List Condition
  | [] => []
  | c :: cs => nodes c ++ nodesOf cs

end

mutual

theorem leafCount_eq_length : ∀ c, leafCount c = (leaves c).length
  | .all cs => leafCounts_eq_length cs
  | .any cs => leafCounts_eq_length cs
  | .compare _ _ _ => rfl
  | .among _ _ => rfl
  | .notAmong _ _ => rfl

theorem leafCounts_eq_length : ∀ cs, leafCounts cs = (leavesOf cs).length
  | [] => rfl
  | c :: cs => by
    rw [leafCounts, leavesOf, List.length_append, leafCount_eq_length c, leafCounts_eq_length cs]

end

theorem mem_nodesOf {d : Condition} {cs : List Condition} :
    d ∈ nodesOf cs ↔ ∃ c ∈ cs, d ∈ nodes c := by
  induction cs with
  | nil => simp [nodesOf]
  | cons c cs ih => simp [nodesOf, ih]

/-- No conjunction is within a choice, and every disjunction within it has two children or more. -/
theorem Choice.nodes {c d : Condition} (h : Choice c) (hd : d ∈ nodes c) :
    d.isAll = false ∧ (d.isGroup = true → 2 ≤ d.children.length) := by
  induction h with
  | @leaf c hleaf =>
    have hnodes : Condition.nodes c = [c] := by
      cases c <;> first | rfl | cases hleaf
    rw [hnodes, List.mem_singleton] at hd
    subst hd
    refine ⟨?_, fun hgroup => ?_⟩
    · cases d <;> first | rfl | cases hleaf
    · rw [hleaf] at hgroup
      cases hgroup
  | @any cs htwo _ ih =>
    rcases List.mem_cons.1 hd with rfl | hd
    · exact ⟨rfl, fun _ => htwo⟩
    · obtain ⟨c, hc, hd⟩ := mem_nodesOf.1 hd
      exact ih c hc hd

structure Positions (marks : Address → Condition → Prop) (ks : List Nat) : Prop where
  ordered : ks.Pairwise (· < ·)
  mem_iff : ∀ k, k ∈ ks ↔ ∃ address c, marks (k :: address) c

def markedBelow (marks : Address → Condition → Prop) (k : Nat) (address : Address) (c : Condition) : Prop :=
  marks (k :: address) c

/-- The conditions belong to the positions one by one, as far as there are both. -/
def Each (belongs : Nat → Condition → Prop) (ks : List Nat) (cs : List Condition) : Prop :=
  ∀ (i k : Nat) (c : Condition), ks[i]? = some k → cs[i]? = some c → belongs k c

/-- The condition that gathers what is marked. A mark at the root is the condition itself. Below a single
position stands what is gathered there, and several positions make a disjunction of what is gathered
below each. -/
inductive Gathered : (Address → Condition → Prop) → Condition → Prop where
  | leaf {marks : Address → Condition → Prop} {c : Condition}
      (h : ∀ address d, marks address d ↔ address = [] ∧ d = c) : Gathered marks c
  | unwrapped {marks : Address → Condition → Prop} {k : Nat} {c : Condition}
      (hks : Positions marks [k]) (h : Gathered (markedBelow marks k) c) : Gathered marks c
  | any {marks : Address → Condition → Prop} {ks : List Nat} {cs : List Condition}
      (hks : Positions marks ks) (htwo : 2 ≤ ks.length) (hlength : cs.length = ks.length)
      (h : Each (fun k => Gathered (markedBelow marks k)) ks cs) : Gathered marks (.any cs)

inductive Conjoined (marks : Address → Condition → Prop) : List Nat → Option Condition → Prop where
  | none : Conjoined marks [] none
  | unwrapped {k : Nat} {c : Condition} (h : Gathered (markedBelow marks k) c) : Conjoined marks [k] (some c)
  | all {ks : List Nat} {cs : List Condition} (htwo : 2 ≤ ks.length) (hlength : cs.length = ks.length)
      (h : Each (fun k => Gathered (markedBelow marks k)) ks cs) : Conjoined marks ks (some (.all cs))

def Forms (marks : Address → Condition → Prop) : Option Condition → Prop
  | none => ∀ address c, ¬ marks address c
  | some c => Gathered marks c

structure Members (marks : Address → Condition → Prop) (ks : List Nat) (cs : List Condition) : Prop where
  root : ∀ c, ¬ marks [] c
  positions : Positions marks ks
  length_eq : cs.length = ks.length
  gathered : Each (fun k => Gathered (markedBelow marks k)) ks cs

variable {marks head tail : Address → Condition → Prop} {ks : List Nat} {cs : List Condition}

theorem Gathered.exists_mark {c : Condition} (h : Gathered marks c) :
    ∃ address d, marks address d := by
  cases h with
  | leaf h => exact ⟨[], c, (h [] c).2 ⟨rfl, rfl⟩⟩
  | @unwrapped _ k _ hks h =>
    obtain ⟨address, d, hmark⟩ := (hks.mem_iff k).1 (List.mem_singleton_self k)
    exact ⟨_, d, hmark⟩
  | @any _ ks _ hks htwo _ _ =>
    have hmem : ks[0] ∈ ks := List.getElem_mem (by omega)
    obtain ⟨address, d, hmark⟩ := (hks.mem_iff _).1 hmem
    exact ⟨_, d, hmark⟩

theorem Gathered.congr {other : Address → Condition → Prop} {c : Condition} (h : Gathered marks c)
    (hiff : ∀ address d, other address d ↔ marks address d) : Gathered other c := by
  have heq : other = marks := by
    funext address d
    exact propext (hiff address d)
  rwa [heq]

theorem Forms.congr {other : Address → Condition → Prop} {made : Option Condition}
    (h : Forms marks made) (hiff : ∀ address c, other address c ↔ marks address c) :
    Forms other made := by
  cases made with
  | none => exact fun address c => mt (hiff address c).1 (h address c)
  | some c => exact Gathered.congr h hiff

/-- A leaf at the root, or none. -/
theorem forms_leaf {made : Option Condition}
    (h : ∀ address c, marks address c ↔ address = [] ∧ made = some c) : Forms marks made := by
  cases made with
  | none => exact fun address c hmark => by simp [h] at hmark
  | some c => exact Gathered.leaf fun address d => by rw [h, Option.some.injEq, eq_comm (a := c)]

namespace Members

theorem nil (h : ∀ address c, ¬ marks address c) : Members marks [] [] :=
  ⟨h [], ⟨List.Pairwise.nil, fun k => by simp [h]⟩, rfl, fun i k c hk => by simp at hk⟩

theorem not_marks (h : Members marks [] cs) (address : Address) (c : Condition) :
    ¬ marks address c := by
  intro hmark
  cases address with
  | nil => exact h.root c hmark
  | cons k address => exact List.not_mem_nil ((h.positions.mem_iff k).2 ⟨address, c, hmark⟩)

/-- Members of the first tree and of the others: the first tree adds one position or none. -/
theorem cons {made : Option Condition} (hs : Splits marks head tail) (hmade : Forms head made)
    (h : Members tail ks cs) : ∃ ks, Members marks ks (made.toList ++ cs) := by
  have htail : ∀ k, k + 1 ∈ ks.map Nat.succ ↔ ∃ address c, marks ((k + 1) :: address) c := by
    intro k
    simp [h.positions.mem_iff, hs.succ]
  have hordered : (ks.map Nat.succ).Pairwise (· < ·) :=
    List.pairwise_map.2 (h.positions.ordered.imp Nat.succ_lt_succ)
  have hgathered : Each (fun k => Gathered (markedBelow marks k)) (ks.map Nat.succ) cs := by
    intro i next c hnext hc
    rw [List.getElem?_map] at hnext
    obtain ⟨k, hk, rfl⟩ := Option.map_eq_some_iff.1 hnext
    exact (h.gathered i k c hk hc).congr (hs.succ k)
  -- Position zero is that of the first tree, and it contributes just when something is made there.
  cases made with
  | none =>
    refine ⟨ks.map Nat.succ, hs.none, ⟨hordered, fun k => ?_⟩, by simpa using h.length_eq, hgathered⟩
    cases k with
    | zero => simp [hs.zero, show ∀ address c, ¬ head address c from hmade]
    | succ k => exact htail k
  | some c =>
    refine ⟨0 :: ks.map Nat.succ, hs.none, ⟨?_, fun k => ?_⟩, by simpa using h.length_eq,
      fun i k d hk hd => ?_⟩
    · refine List.pairwise_cons.2 ⟨fun k hk => ?_, hordered⟩
      obtain ⟨k, -, rfl⟩ := List.mem_map.1 hk
      exact Nat.succ_pos k
    · cases k with
      | zero =>
        obtain ⟨address, d, hmark⟩ := Gathered.exists_mark hmade
        exact iff_of_true List.mem_cons_self ⟨address, d, (hs.zero address d).2 hmark⟩
      | succ k => rw [← htail, List.mem_cons, or_iff_right (Nat.succ_ne_zero k)]
    · cases i with
      | zero =>
        obtain rfl := Option.some.inj hk
        obtain rfl := Option.some.inj hd
        exact Gathered.congr hmade hs.zero
      | succ i => exact hgathered i k d hk hd

/-- A disjunction of the members, one member itself, or nothing. -/
theorem join (h : Members marks ks cs) : Forms marks (Condition.join false cs) := by
  match cs, ks, h with
  | [], [], h => exact h.not_marks
  | [only], [k], h => exact .unwrapped h.positions (h.gathered 0 k only rfl rfl)
  | first :: second :: rest, ks, h =>
    have htwo : 2 ≤ ks.length := by
      rw [← h.length_eq]
      exact Nat.le_add_left 2 rest.length
    exact .any h.positions htwo h.length_eq h.gathered
  | [], k :: ks, h => cases h.length_eq
  | [only], [], h => cases h.length_eq
  | [only], k :: l :: ks, h => cases h.length_eq

theorem conjoined (h : Members marks ks cs) : Conjoined marks ks (Condition.join true cs) := by
  match cs, ks, h with
  | [], [], h => exact .none
  | [only], [k], h => exact .unwrapped (h.gathered 0 k only rfl rfl)
  | first :: second :: rest, ks, h =>
    have htwo : 2 ≤ ks.length := by
      rw [← h.length_eq]
      exact Nat.le_add_left 2 rest.length
    exact .all htwo h.length_eq h.gathered
  | [], k :: ks, h => cases h.length_eq
  | [only], [], h => cases h.length_eq
  | [only], k :: l :: ks, h => cases h.length_eq

end Members

open Schema

/-- Both walks build the members of what is found on the walk. -/
theorem exists_members (s : Schema) :
    (∀ (r : Record) (entries : List Plan.Entry) (cs : List Condition),
      (parts r entries).run s.plan = .ok cs →
      ∃ ks, Members (s.Finds WalkPlace.Makes r entries) ks cs) ∧
    (∀ (plan : Plan) (items : List Value) (cs : List Condition),
      (branches plan items).run s.plan = .ok cs →
      ∃ ks, Members (s.ItemsFind WalkPlace.Makes plan items) ks cs) := by
  refine built_induction s.plan ?done ?unset ?column ?group ?none ?record
  case done => exact fun r => ⟨[], .nil fun _ _ => not_finds_nil⟩
  case unset =>
    rintro r e rest cs hunset ⟨ks, hks⟩
    have hnone : Forms (fun address => s.Finds WalkPlace.Makes r (e :: rest) (0 :: address)) none :=
      not_finds_unset hunset rest
    exact Members.cons (splits_finds s _ r e rest) hnone hks
  case column =>
    rintro r e rest value column made cs hset htarget hleaf ⟨ks, hks⟩
    refine Members.cons (splits_finds s _ r e rest) (forms_leaf fun address c => ?_) hks
    rw [finds_column_iff hset htarget, WalkPlace.makes_column_iff htarget hleaf]
  case group =>
    rintro r e rest value type plan ds cs hset htarget hplan ⟨js, hjs⟩ ⟨ks, hks⟩
    refine Members.cons (splits_finds s _ r e rest) (hjs.join.congr fun address c => ?_) hks
    simp [finds_group_iff hset htarget, WalkPlace.not_makes_group htarget, hplan]
  case none => exact fun plan => ⟨[], .nil fun _ _ => not_itemsFind_nil⟩
  case record =>
    rintro plan item rest r ds cs hitem ⟨js, hjs⟩ ⟨ks, hks⟩
    refine Members.cons (splits_itemsFind s _ plan item rest) (hjs.join.congr fun address c => ?_) hks
    simp [itemsFind_zero_iff, WalkPlace.not_makes_element, hitem]

theorem isLeaf_of_finds {s : Schema} {r : Record} {entries : List Plan.Entry} {address : Address}
    {c : Condition} (h : s.Finds WalkPlace.Makes r entries address c) : c.isGroup = false := by
  obtain ⟨place, -, hmakes⟩ := h
  cases hmakes with
  | leaf htarget hleaf => exact isLeaf_of_leaf hleaf

mutual

theorem leaves_condition : ∀ t : SourcedCondition, (∀ x ∈ t.leaves, x.2.isGroup = false) →
    leaves t.condition = t.leaves.map (·.2)
  | .leaf address c, h => leaves_of_isLeaf (h (address, c) List.mem_cons_self)
  | .all ts, h => leavesOf_conditions ts h
  | .any ts, h => leavesOf_conditions ts h

theorem leavesOf_conditions : ∀ ts : List SourcedCondition,
    (∀ x ∈ SourcedCondition.leavesOf ts, x.2.isGroup = false) →
    leavesOf (SourcedCondition.conditions ts) = (SourcedCondition.leavesOf ts).map (·.2)
  | [], _ => rfl
  | t :: ts, h => by
    obtain ⟨hfirst, hrest⟩ := List.forall_mem_append.1 h
    rw [SourcedCondition.conditions, leavesOf, SourcedCondition.leavesOf, List.map_append,
      leaves_condition t hfirst, leavesOf_conditions ts hrest]

end

theorem join_eq_none_iff {conjunctive : Bool} : join conjunctive cs = none ↔ cs = [] := by
  match cs with
  | [] => exact iff_of_true rfl rfl
  | [only] => simp [join]
  | first :: second :: rest => cases conjunctive <;> simp [join]

theorem leavesOf_eq_nil_iff (hchoice : ∀ c ∈ cs, Choice c) : leavesOf cs = [] ↔ cs = [] := by
  constructor
  · intro hnone
    cases cs with
    | nil => rfl
    | cons first rest =>
      obtain ⟨l, hl⟩ := (hchoice first List.mem_cons_self).exists_leaf
      exact absurd (mem_leavesOf.2 ⟨first, List.mem_cons_self, hl⟩) (hnone ▸ List.not_mem_nil)
  · rintro rfl
    rfl

/-- The conjunction of choices is the only conjunction, if it is one. -/
theorem nodes_join {c : Condition} (hchoice : ∀ d ∈ cs, Choice d) (h : join true cs = some c) :
    (∀ d ∈ c.nodes, d.isGroup = true → 2 ≤ d.children.length) ∧
      (∀ d ∈ c.nodes.tail, d.isAll = false) ∧ (c.isAll = true ↔ 2 ≤ cs.length) := by
  match cs with
  | [] => cases h
  | [only] =>
    obtain rfl := Option.some.inj h
    have honly := hchoice only List.mem_cons_self
    refine ⟨fun d hd => (honly.nodes hd).2, fun d hd => (honly.nodes (List.mem_of_mem_tail hd)).1, ?_⟩
    have hself : only ∈ only.nodes := by cases only <;> exact List.mem_cons_self
    simp [(honly.nodes hself).1]
  | first :: second :: rest =>
    obtain rfl := Option.some.inj h
    have hinner : ∀ d ∈ nodesOf (first :: second :: rest),
        d.isAll = false ∧ (d.isGroup = true → 2 ≤ d.children.length) := by
      intro d hd
      obtain ⟨c, hc, hd⟩ := mem_nodesOf.1 hd
      exact (hchoice c hc).nodes hd
    refine ⟨fun d hd => ?_, fun d hd => (hinner d hd).1, iff_of_true rfl (Nat.le_add_left 2 _)⟩
    rcases List.mem_cons.1 hd with rfl | hd
    · exact fun _ => Nat.le_add_left 2 rest.length
    · exact (hinner d hd).2

/-- The form of a condition built through any cache of any host. Its leaves are those that set columns
make, in the order of the walk; there is none if there are no leaves. Every inner node has two children
or more, and a conjunction is the root alone, just when two fields of the snapshot or more contribute.
Wherever a single field or element contributes, its contribution stands there unwrapped. -/
theorem ofValue_form (s : Schema) (actions : List Action) (id : CacheId) {value : Value}
    {built : Option Condition}
    (h : ((ofValue value).runIn s ((Host.after s actions).cache id)).result = .ok built) :
    ∃ r plan found fields, value.normalize = .ok r ∧ s.plan r.type = .ok plan ∧
      Lists (s.Finds WalkPlace.Makes r plan.entries) found ∧
      leavesOf built.toList = found.map (·.2) ∧ (built = none ↔ found = []) ∧
      Positions (s.Finds WalkPlace.Makes r plan.entries) fields ∧
      Conjoined (s.Finds WalkPlace.Makes r plan.entries) fields built ∧
      ∀ c, built = some c →
        c.leafCount = found.length ∧
        (∀ d ∈ c.nodes, d.isGroup = true → 2 ≤ d.children.length) ∧
        (∀ d ∈ c.nodes.tail, d.isAll = false) ∧ (c.isAll = true ↔ 2 ≤ fields.length) := by
  rw [(CacheStep.transparent_runIn _).result _ (Host.sound_cache_after s actions id)] at h
  cases hr : value.normalize with
  | error e =>
    rw [run_ofValue_error _ hr] at h
    cases h
  | ok r =>
    rw [run_ofValue_record _ hr] at h
    obtain ⟨plan, hplan, h⟩ := bind_eq_ok.1 h
    obtain ⟨cs, hparts, rfl⟩ := map_eq_ok.1 h
    obtain ⟨ts, hts⟩ := (exists_sources s).1 r plan.entries cs hparts
    obtain ⟨fields, hfields⟩ := (exists_members s).1 r plan.entries cs hparts
    have hchoice := ((yields_parts_branches s).1 r plan.entries cs hparts).choice
    have hleaves : leavesOf cs = (SourcedCondition.leavesOf ts).map (·.2) := by
      rw [← hts.conditions]
      exact leavesOf_conditions ts fun x hx => isLeaf_of_finds ((hts.lists.mem_iff x.1 x.2).1 hx)
    refine ⟨r, plan, SourcedCondition.leavesOf ts, fields, rfl, hplan, hts.lists,
      (leavesOf_join true cs).trans hleaves, ?_, hfields.positions, hfields.conjoined,
      fun c hc => ?_⟩
    · rw [join_eq_none_iff, ← leavesOf_eq_nil_iff hchoice, hleaves, List.map_eq_nil_iff]
    · have hall : leaves c = leavesOf cs := by
        rw [← leavesOf_join true cs, hc]
        exact (List.append_nil _).symm
      refine ⟨?_, ?_⟩
      · rw [leafCount_eq_length, hall, hleaves, List.length_map]
      · rw [← hfields.length_eq]
        exact nodes_join hchoice hc

/-- Two fields contribute, the second through two of its elements, one of them at depth. -/
theorem nested_clause_form :
    ((ofValue (clause "a" [clause "b" [], clause "" [clause "" [clause "c" []]]])).runIn clauses
        ((Host.after clauses []).cache 0)).result =
          .ok (some (.all [labelled "a", .any [labelled "b", labelled "c"]])) ∧
      ∃ (r : Record) (plan : Plan) (found : List (Address × Condition)) (fields : List Nat),
        Lists (clauses.Finds WalkPlace.Makes r plan.entries) found ∧
        found.map (·.2) = [labelled "a", labelled "b", labelled "c"] ∧
        Positions (clauses.Finds WalkPlace.Makes r plan.entries) fields ∧ 2 ≤ fields.length := by
  have hbuilt : ((ofValue (clause "a" [clause "b" [], clause "" [clause "" [clause "c" []]]])).runIn
      clauses ((Host.after clauses []).cache 0)).result =
        .ok (some (.all [labelled "a", .any [labelled "b", labelled "c"]])) := by cbv
  obtain ⟨r, plan, found, fields, -, -, hlists, hleaves, -, hfields, -, hnodes⟩ :=
    ofValue_form clauses [] 0 hbuilt
  obtain ⟨-, -, -, hall⟩ := hnodes _ rfl
  exact ⟨hbuilt, r, plan, found, fields, hlists, hleaves.symm, hfields, hall.1 rfl⟩

end Condition

end Criteria
