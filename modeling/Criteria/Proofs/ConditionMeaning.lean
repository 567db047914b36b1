import Mathlib
import Criteria.Proofs.CacheTransparency
import Criteria.Proofs.ConditionRun

/-!
What a built condition means. Under any truth of its leaves it is the conjunction of what the
entries of the plan demand: a column demands its leaf, and a group demands one of the leaves found
anywhere below it, or nothing if there are none.
-/

set_option autoImplicit false

namespace Criteria.Condition

mutual

def holds (truth : Condition → Bool) : Condition → Bool
  | .all children => allHold truth children
  | .any children => anyHolds truth children
  | leaf => truth leaf

def allHold (truth : Condition → Bool) : List Condition → Bool
  | [] => true
  | child :: children => holds truth child && allHold truth children

def anyHolds (truth : Condition → Bool) : List Condition → Bool
  | [] => false
  | child :: children => holds truth child || anyHolds truth children

end

def holds? (truth : Condition → Bool) : Option Condition → Bool
  | none => true
  | some c => holds truth c

mutual

def leaves : Condition → List Condition
  | .all children => leavesOf children
  | .any children => leavesOf children
  | leaf => [leaf]

def leavesOf : List Condition → List Condition
  | [] => []
  | child :: children => leaves child ++ leavesOf children

end

/-- A leaf, or a disjunction of two or more choices. -/
inductive Choice : Condition → Prop where
  | leaf {c : Condition} (h : c.isGroup = false) : Choice c
  | any {children : List Condition} (htwo : 2 ≤ children.length)
      (h : ∀ c ∈ children, Choice c) : Choice (.any children)

variable {truth : Condition → Bool}

theorem holds_of_isLeaf {c : Condition} (h : c.isGroup = false) : holds truth c = truth c := by
  cases c <;> first | rfl | cases h

theorem leaves_of_isLeaf {c : Condition} (h : c.isGroup = false) : leaves c = [c] := by
  cases c <;> first | rfl | cases h

theorem allHold_iff {cs : List Condition} :
    allHold truth cs = true ↔ ∀ c ∈ cs, holds truth c = true := by
  induction cs with
  | nil => simp [allHold]
  | cons c cs ih => simp [allHold, ih]

theorem anyHolds_iff {cs : List Condition} :
    anyHolds truth cs = true ↔ ∃ c ∈ cs, holds truth c = true := by
  induction cs with
  | nil => simp [anyHolds]
  | cons c cs ih => simp [anyHolds, ih]

theorem mem_leavesOf {l : Condition} {cs : List Condition} :
    l ∈ leavesOf cs ↔ ∃ c ∈ cs, l ∈ leaves c := by
  induction cs with
  | nil => simp [leavesOf]
  | cons c cs ih => simp [leavesOf, ih]

theorem holds?_join_true (cs : List Condition) :
    holds? truth (join true cs) = true ↔ ∀ c ∈ cs, holds truth c = true := by
  match cs with
  | [] => simp [join, holds?]
  | [only] => simp [join, holds?]
  | first :: second :: rest => exact allHold_iff

theorem Choice.exists_leaf {c : Condition} (h : Choice c) : ∃ l, l ∈ leaves c := by
  induction h with
  | @leaf c hleaf => exact ⟨c, by simp [leaves_of_isLeaf hleaf]⟩
  | @any children htwo _ ih =>
    have hmem : children[0] ∈ children := List.getElem_mem (by omega)
    obtain ⟨l, hl⟩ := ih _ hmem
    exact ⟨l, mem_leavesOf.2 ⟨_, hmem, hl⟩⟩

theorem Choice.holds_iff {c : Condition} (h : Choice c) :
    holds truth c = true ↔ ∃ l ∈ leaves c, truth l = true := by
  induction h with
  | leaf hleaf => simp [holds_of_isLeaf hleaf, leaves_of_isLeaf hleaf]
  | @any children _ _ ih =>
    change anyHolds truth children = true ↔ ∃ l ∈ leavesOf children, truth l = true
    rw [anyHolds_iff]
    constructor
    · rintro ⟨c, hc, hholds⟩
      obtain ⟨l, hl, htruth⟩ := (ih c hc).1 hholds
      exact ⟨l, mem_leavesOf.2 ⟨c, hc, hl⟩, htruth⟩
    · rintro ⟨l, hl, htruth⟩
      obtain ⟨c, hc, hl⟩ := mem_leavesOf.1 hl
      exact ⟨c, hc, (ih c hc).2 ⟨l, hl, htruth⟩⟩

structure Yields (cs : List Condition) (P : Condition → Prop) : Prop where
  choice : ∀ c ∈ cs, Choice c
  leaves : ∀ l, l ∈ leavesOf cs ↔ P l

namespace Yields

variable {cs ds : List Condition} {P Q : Condition → Prop}

theorem of_iff (h : Yields cs P) (hiff : ∀ l, P l ↔ Q l) : Yields cs Q :=
  ⟨h.choice, fun l => (h.leaves l).trans (hiff l)⟩

theorem nil : Yields [] fun _ => False :=
  ⟨by simp, by simp [leavesOf]⟩

theorem append (hc : Yields cs P) (hd : Yields ds Q) : Yields (cs ++ ds) fun l => P l ∨ Q l := by
  constructor
  · intro c hmem
    rcases List.mem_append.1 hmem with h | h
    · exact hc.choice c h
    · exact hd.choice c h
  · intro l
    rw [← hc.leaves, ← hd.leaves]
    simp only [mem_leavesOf, List.mem_append, or_and_right, exists_or]

theorem join (h : Yields cs P) : Yields (join false cs).toList P := by
  match cs with
  | [] => exact h
  | [only] => exact h
  | first :: second :: rest =>
    constructor
    · intro c hmem
      obtain rfl := List.mem_singleton.1 hmem
      exact .any (by simp) h.choice
    · intro l
      rw [← h.leaves l]
      simp [Condition.join, leavesOf, Condition.leaves]

/-- One condition or none, read as a demand. -/
theorem holds_toList_iff {c : Option Condition} (h : Yields c.toList P) :
    (∀ x ∈ c.toList, holds truth x = true) ↔ ((∃ l, P l) → ∃ l, P l ∧ truth l = true) := by
  have hleaves : ∀ l, P l ↔ ∃ x ∈ c.toList, l ∈ Condition.leaves x := by
    intro l
    rw [← h.leaves l, mem_leavesOf]
  cases c with
  | none => simp [hleaves]
  | some x =>
    have hx : Choice x := h.choice x (by simp)
    have hmem : ∀ l, P l ↔ l ∈ Condition.leaves x := by simpa using hleaves
    simp [hmem, hx.holds_iff, hx.exists_leaf]

end Yields

/-- A condition is a leaf that an entry adds for a record, at any depth below it. -/
inductive Gives (s : Schema) : Record → Plan.Entry → Condition → Prop where
  | leaf {r : Record} {e : Plan.Entry} {column : String} {value : Value} {c : Condition}
      (htarget : e.target = .column column) (hset : r.given? e.path = some value)
      (hleaf : leaf e column value = .ok (some c)) : Gives s r e c
  | nested {r inner : Record} {e entry : Plan.Entry} {type : TypeId} {value item : Value}
      {plan : Plan} {c : Condition} (htarget : e.target = .group type)
      (hset : r.given? e.path = some value) (hplan : s.plan type = .ok plan)
      (hitem : item ∈ value.alternatives) (hinner : item.normalize = .ok inner)
      (hentry : entry ∈ plan.entries) (hgives : Gives s inner entry c) : Gives s r e c

def ItemsGive (s : Schema) (plan : Plan) (items : List Value) (c : Condition) : Prop :=
  ∃ item ∈ items, ∃ r, item.normalize = .ok r ∧ ∃ e ∈ plan.entries, Gives s r e c

variable {s : Schema} {r : Record} {e : Plan.Entry}

theorem not_gives_of_unset (h : r.given? e.path = none) (c : Condition) : ¬ Gives s r e c := by
  intro hgives
  cases hgives <;> simp_all

theorem gives_column_iff {column : String} {value : Value} {made : Option Condition}
    (htarget : e.target = .column column) (hset : r.given? e.path = some value)
    (hleaf : leaf e column value = .ok made) (c : Condition) :
    Gives s r e c ↔ made = some c := by
  constructor
  · intro hgives
    cases hgives <;> simp_all
  · rintro rfl
    exact .leaf htarget hset hleaf

theorem gives_group_iff {type : TypeId} {value : Value} {plan : Plan}
    (htarget : e.target = .group type) (hset : r.given? e.path = some value)
    (hplan : s.plan type = .ok plan) (c : Condition) :
    Gives s r e c ↔ ItemsGive s plan value.alternatives c := by
  constructor
  · intro hgives
    cases hgives with
    | leaf htarget' => simp_all
    | @nested _ inner _ entry type' value' item plan' _ htarget' hset' hplan' hitem hinner hentry hgives =>
      obtain rfl : type' = type := by simp_all
      obtain rfl : value' = value := by simp_all
      obtain rfl : plan' = plan := by simp_all
      exact ⟨item, hitem, inner, hinner, entry, hentry, hgives⟩
  · rintro ⟨item, hitem, inner, hinner, entry, hentry, hgives⟩
    exact .nested htarget hset hplan hitem hinner hentry hgives

theorem isLeaf_of_nullness {column : String} {value : Value} {c : Condition}
    (h : QueryOp.nullness column value = some c) : c.isGroup = false := by
  unfold QueryOp.nullness at h
  split at h <;> cases h <;> rfl

theorem isLeaf_of_leaf {column : String} {value : Value} {c : Condition}
    (h : leaf e column value = .ok (some c)) : c.isGroup = false := by
  unfold leaf at h
  cases hop : e.queryOp <;> simp only [hop, QueryOp.leaf?] at h
  case null => exact isLeaf_of_nullness (Except.ok.inj h)
  case or => cases h
  case like =>
    unfold QueryOp.matching at h
    split at h <;> cases h
    rfl
  case among =>
    obtain ⟨values, -, hmade⟩ := bind_eq_ok.1 h
    cases hmade
    rfl
  case notAmong =>
    obtain ⟨values, -, hmade⟩ := bind_eq_ok.1 h
    cases hmade
    rfl
  all_goals
    cases h
    rfl

theorem yields_column {column : String} {value : Value} {made : Option Condition}
    (htarget : e.target = .column column) (hset : r.given? e.path = some value)
    (hleaf : leaf e column value = .ok made) : Yields made.toList (Gives s r e) := by
  refine Yields.of_iff (P := fun c => made = some c) ?_
    fun c => (gives_column_iff htarget hset hleaf c).symm
  cases made with
  | none => exact Yields.nil.of_iff (by simp)
  | some c =>
    have hc := isLeaf_of_leaf hleaf
    constructor
    · intro d hd
      obtain rfl := List.mem_singleton.1 hd
      exact .leaf hc
    · intro l
      simp [leavesOf, leaves_of_isLeaf hc, eq_comm]

theorem itemsGive_cons_iff {plan : Plan} {item : Value} {inner : Record} {rest : List Value}
    (h : item.normalize = .ok inner) (c : Condition) :
    ItemsGive s plan (item :: rest) c ↔
      (∃ e ∈ plan.entries, Gives s inner e c) ∨ ItemsGive s plan rest c := by
  simp [ItemsGive, h]

theorem yields_parts_branches (s : Schema) :
    (∀ (r : Record) (entries : List Plan.Entry) (cs : List Condition),
      (parts r entries).run s.plan = .ok cs → Yields cs fun c => ∃ e ∈ entries, Gives s r e c) ∧
    (∀ (plan : Plan) (items : List Value) (cs : List Condition),
      (branches plan items).run s.plan = .ok cs → Yields cs (ItemsGive s plan items)) := by
  refine built_induction s.plan ?done ?unset ?column ?group ?none ?record
  case done => exact fun r => Yields.nil.of_iff (by simp)
  case unset =>
    intro r e rest cs hunset h
    exact h.of_iff (by simp [not_gives_of_unset hunset])
  case column =>
    intro r e rest value column made cs hset htarget hleaf h
    exact ((yields_column (s := s) htarget hset hleaf).append h).of_iff (by simp)
  case group =>
    intro r e rest value type plan ds cs hset htarget hplan hitems h
    have hgroup := hitems.join.of_iff fun c => (gives_group_iff htarget hset hplan c).symm
    exact (hgroup.append h).of_iff (by simp)
  case none => exact fun plan => Yields.nil.of_iff (by simp [ItemsGive])
  case record =>
    intro plan item rest r ds cs hitem hfields h
    exact (hfields.join.append h).of_iff fun c => (itemsGive_cons_iff hitem c).symm

theorem yields_part (s : Schema) {value : Value} {made : Option Condition}
    (hset : r.given? e.path = some value) (h : (part e value).run s.plan = .ok made) :
    Yields made.toList (Gives s r e) := by
  cases htarget : e.target with
  | column column =>
    rw [run_part_column _ value htarget] at h
    exact yields_column htarget hset h
  | group type =>
    rw [run_part_group _ value htarget] at h
    obtain ⟨plan, hplan, h⟩ := bind_eq_ok.1 h
    obtain ⟨cs, hbranches, rfl⟩ := map_eq_ok.1 h
    have hitems := (yields_parts_branches s).2 plan value.alternatives cs hbranches
    exact hitems.join.of_iff fun c => (gives_group_iff htarget hset hplan c).symm

/-- What an entry demands of a record's rows: a column its leaf, a group one of the leaves below it.
A column without a leaf and a group without leaves demand nothing. -/
def EntryHolds (s : Schema) (truth : Condition → Bool) (r : Record) (e : Plan.Entry) : Prop :=
  match e.target with
  | .column _ => ∀ c, Gives s r e c → truth c = true
  | .group _ => (∃ c, Gives s r e c) → ∃ c, Gives s r e c ∧ truth c = true

theorem gives_column_unique {column : String} (htarget : e.target = .column column)
    {c d : Condition} (hc : Gives s r e c) (hd : Gives s r e d) : c = d := by
  cases hc with
  | nested htarget' => simp_all
  | leaf htarget' hset hleaf =>
    have hiff := gives_column_iff (s := s) htarget' hset hleaf
    exact Option.some.inj ((hiff d).1 hd)

theorem entryHolds_iff :
    EntryHolds s truth r e ↔ ((∃ c, Gives s r e c) → ∃ c, Gives s r e c ∧ truth c = true) := by
  unfold EntryHolds
  split
  · rename_i column htarget
    constructor
    · rintro h ⟨c, hc⟩
      exact ⟨c, hc, h c hc⟩
    · intro h c hc
      obtain ⟨d, hd, htruth⟩ := h ⟨c, hc⟩
      rwa [gives_column_unique htarget hc hd]
  · exact Iff.rfl

theorem entryHolds_of_unset (h : r.given? e.path = none) : EntryHolds s truth r e := by
  rw [entryHolds_iff]
  rintro ⟨c, hc⟩
  exact absurd hc (not_gives_of_unset h c)

theorem holds_parts_iff (r : Record) (entries : List Plan.Entry) (cs : List Condition)
    (h : (parts r entries).run s.plan = .ok cs) :
    (∀ c ∈ cs, holds truth c = true) ↔ ∀ e ∈ entries, EntryHolds s truth r e := by
  induction entries generalizing cs with
  | nil =>
    rw [parts_nil] at h
    obtain rfl := Except.ok.inj h
    simp
  | cons e rest ih =>
    cases hset : r.given? e.path with
    | none =>
      rw [run_parts_unset _ rest hset] at h
      rw [ih cs h, List.forall_mem_cons]
      simp only [entryHolds_of_unset hset, true_and]
    | some value =>
      rw [run_parts_set _ rest hset] at h
      obtain ⟨made, hmade, h⟩ := bind_eq_ok.1 h
      obtain ⟨cs, hrest, rfl⟩ := map_eq_ok.1 h
      rw [List.forall_mem_append, List.forall_mem_cons, ih cs hrest, entryHolds_iff,
        (yields_part s hset hmade).holds_toList_iff]

/-- The meaning of a condition built through any cache of any host: every entry's demand is met. -/
theorem holds_ofValue_iff (s : Schema) (actions : List Action) (id : CacheId) (value : Value)
    (truth : Condition → Bool) {built : Option Condition}
    (h : ((Condition.ofValue value).runIn s ((Host.after s actions).cache id)).result = .ok built) :
    ∃ r plan, value.normalize = .ok r ∧ s.plan r.type = .ok plan ∧
      (holds? truth built = true ↔ ∀ e ∈ plan.entries, EntryHolds s truth r e) := by
  rw [(CacheStep.transparent_runIn _).result _ (Host.sound_cache_after s actions id)] at h
  cases hr : value.normalize with
  | error e =>
    rw [run_ofValue_error _ hr] at h
    cases h
  | ok r =>
    rw [run_ofValue_record _ hr] at h
    obtain ⟨plan, hplan, h⟩ := bind_eq_ok.1 h
    obtain ⟨cs, hparts, rfl⟩ := map_eq_ok.1 h
    exact ⟨r, plan, rfl, hplan, (holds?_join_true cs).trans (holds_parts_iff r plan.entries cs hparts)⟩

def clauses : Schema :=
  ⟨[⟨"Clause",
      [⟨"label", .text, false, ⟨some "label", none, none⟩⟩,
        ⟨"any", .list (.struct 0), false, ⟨none, some "or", none⟩⟩]⟩]⟩

def clause (label : String) (alternatives : List Value) : Value :=
  .record 0 [("label", .text label), ("any", .list alternatives)]

def labelled (label : String) : Condition := .compare "label" .eq (.text label)

/-- The group at the top demands one of two leaves, found at different depths. -/
theorem holds_nested_clause :
    ∃ r plan, (clause "a" [clause "b" [], clause "" [clause "" [clause "c" []]]]).normalize = .ok r ∧
      clauses.plan r.type = .ok plan ∧
      (holds? (fun c => c == labelled "a" || c == labelled "c")
          (some (.all [labelled "a", .any [labelled "b", labelled "c"]])) = true ↔
        ∀ e ∈ plan.entries,
          EntryHolds clauses (fun c => c == labelled "a" || c == labelled "c") r e) :=
  holds_ofValue_iff clauses [.perform (.resolve 0 0)] 0 _ _ (by cbv)

end Criteria.Condition
