import Criteria.Proofs.BuilderFailures
import Criteria.Proofs.WalkPlaces

set_option autoImplicit false

namespace Criteria

namespace Lookup

variable {α β : Type} (answer : TypeId → Except Error Plan)

def asked : Lookup α → List TypeId
  | .done _ => []
  | .fail _ => []
  | .ask type next =>
    match answer type with
    | .ok plan => type :: (next plan).asked
    | .error _ => []

theorem asked_bind (x : Lookup α) (f : α → Lookup β) :
    (x.bind f).asked answer = x.asked answer ++
      match x.run answer with
      | .ok a => (f a).asked answer
      | .error _ => [] := by
  induction x with
  | done a => rfl
  | fail e => rfl
  | ask type next ih =>
    simp only [bind, asked, run]
    cases answer type with
    | ok plan => exact congrArg (type :: ·) (ih plan)
    | error e => rfl

theorem asked_ofExcept (x : Except Error α) : (Lookup.ofExcept x).asked answer = [] := by
  cases x <;> rfl

end Lookup

/-- A computation fails with what fails first, and asks for what stands before that, in order. -/
structure Lookup.Walks {α : Type} (answer : TypeId → Except Error Plan)
    (fails : Address → Error → Prop) (asks : Address → TypeId → Prop) (x : Lookup α) : Prop where
  failsFirst : FailsFirst fails (x.run answer)
  asked : ∃ l, Lists (Before fails asks) l ∧ x.asked answer = l.map (·.2)

namespace Lookup.Walks

variable {α β : Type} {answer : TypeId → Except Error Plan}
  {fails headFails tailFails : Address → Error → Prop}
  {asks headAsks tailAsks : Address → TypeId → Prop} {x : Lookup α}

theorem congr {otherFails : Address → Error → Prop} {otherAsks : Address → TypeId → Prop}
    (h : Walks answer fails asks x) (hfails : ∀ address e, otherFails address e ↔ fails address e)
    (hasks : ∀ address type, otherAsks address type ↔ asks address type) :
    Walks answer otherFails otherAsks x := by
  obtain ⟨l, hl, hasked⟩ := h.asked
  refine ⟨h.failsFirst.congr hfails, l, hl.congr fun address type => ?_, hasked⟩
  simp only [Before, hfails, hasks]

/-- Nothing is asked for, and what can fail is at the root. -/
theorem ofExcept {result : Except Error α}
    (hfails : ∀ address e, fails address e ↔ address = [] ∧ result = .error e)
    (hasks : ∀ address type, ¬ asks address type) : Walks answer fails asks (.ofExcept result) := by
  refine ⟨?_, [], Lists.nil fun address type h => hasks address type h.1, asked_ofExcept answer result⟩
  rw [run_ofExcept]
  cases result with
  | ok a => exact FailsFirst.of_none (by simp [hfails]) a
  | error e => exact FailsFirst.of_root (by simp [hfails, eq_comm])

theorem done (hfails : ∀ address e, ¬ fails address e) (hasks : ∀ address type, ¬ asks address type)
    (a : α) : Walks answer fails asks (.done a) := by
  change Walks answer fails asks (.ofExcept (.ok a))
  exact ofExcept (by simp [hfails]) hasks

theorem map (h : Walks answer fails asks x) (f : α → β) :
    Walks answer fails asks (x.bind fun a => .done (f a)) := by
  obtain ⟨l, hl, hasked⟩ := h.asked
  constructor
  · rw [run_bind]
    exact h.failsFirst.map f
  · refine ⟨l, hl, ?_⟩
    rw [asked_bind, hasked]
    cases x.run answer <;> exact List.append_nil _

theorem of_tail (hf : Splits fails headFails tailFails) (ha : Splits asks headAsks tailAsks)
    (hfails : ∀ address e, ¬ headFails address e) (hasks : ∀ address type, ¬ headAsks address type)
    (h : Walks answer tailFails tailAsks x) : Walks answer fails asks x := by
  obtain ⟨l, hl, hasked⟩ := h.asked
  have hnone : Lists (Before headFails headAsks) [] :=
    Lists.nil fun address type h => hasks address type h.1
  refine ⟨FailsFirst.of_tail hf hfails h.failsFirst, _, Lists.append (ha.before hf hfails) hnone hl, ?_⟩
  rw [hasked, List.map_nil, List.nil_append, List.map_map]
  rfl

/-- After a failure of the first part nothing more is asked for. -/
theorem bind (hf : Splits fails headFails tailFails) (ha : Splits asks headAsks tailAsks)
    {f : α → Lookup β} (hx : Walks answer headFails headAsks x)
    (hnext : ∀ a, x.run answer = .ok a → Walks answer tailFails tailAsks (f a)) :
    Walks answer fails asks (x.bind f) := by
  obtain ⟨l, hl, hasked⟩ := hx.asked
  constructor
  · rw [run_bind]
    exact FailsFirst.bind hf hx.failsFirst fun a hrun => (hnext a hrun).failsFirst
  · rw [asked_bind, hasked]
    cases hrun : x.run answer with
    | ok a =>
      obtain ⟨m, hm, hrest⟩ := (hnext a hrun).asked
      have hhead := hx.failsFirst.ok_iff.1 ⟨a, hrun⟩
      refine ⟨_, Lists.append (ha.before hf hhead) hl hm, ?_⟩
      simp only [hrest, List.map_append, List.map_map]
      rfl
    | error e =>
      -- Every address of the tail is behind that of this failure.
      obtain ⟨first, hfirst⟩ := ((hx.failsFirst.error_iff e).1 hrun).exists
      refine ⟨_, Lists.append (ha.before_of_head_fails hf hfirst) hl (Lists.nil fun _ _ => id), ?_⟩
      rw [List.map_nil, List.append_nil, List.append_nil, List.map_map]
      rfl

/-- A type is asked for first, and if it has a plan, then what that leads to. -/
theorem ask {type : TypeId} {next : Plan → Lookup α} {below : Plan → Address → Error → Prop}
    {belowAsks : Plan → Address → TypeId → Prop}
    (hfails : ∀ address e, fails address e ↔
      (address = [] ∧ answer type = .error e) ∨
        ∃ plan, answer type = .ok plan ∧ below plan address e)
    (hasks : ∀ address asked, asks address asked ↔
      (address = [] ∧ asked = type) ∨
        ∃ plan, answer type = .ok plan ∧ belowAsks plan address asked)
    (hroot : ∀ plan e, ¬ below plan [] e) (hrootAsks : ∀ plan asked, ¬ belowAsks plan [] asked)
    (hnext : ∀ plan, answer type = .ok plan → Walks answer (below plan) (belowAsks plan) (next plan)) :
    Walks answer fails asks (.ask type next) := by
  cases hanswer : answer type with
  | error e =>
    have hrun : (Lookup.ask type next).run answer = .error e := by simp only [run, hanswer]
    have hasked : (Lookup.ask type next).asked answer = [] := by simp only [Lookup.asked, hanswer]
    have hfirst : ∀ other, fails [] other ↔ other = e := by simp [hfails, hanswer, eq_comm]
    refine ⟨hrun ▸ FailsFirst.of_root hfirst, [], Lists.nil ?_, hasked⟩
    rintro address asked ⟨-, hbefore⟩
    exact List.not_lt_nil address (hbefore [] e ((hfirst e).2 rfl))
  | ok plan =>
    have hrun : (Lookup.ask type next).run answer = (next plan).run answer := by
      simp only [run, hanswer]
    have hasked : (Lookup.ask type next).asked answer = type :: (next plan).asked answer := by
      simp only [Lookup.asked, hanswer]
    have hbelow : ∀ address e, fails address e ↔ below plan address e := by simp [hfails, hanswer]
    obtain ⟨l, hl, hrest⟩ := (hnext plan hanswer).asked
    refine ⟨hrun ▸ (hnext plan hanswer).failsFirst.congr hbelow, ([], type) :: l, ?_, ?_⟩
    · -- The question itself is at the root, so it stands before whatever fails below.
      refine (hl.cons_root fun asked h => hrootAsks plan asked h.1).congr fun address asked => ?_
      simp only [Before, hbelow, hasks, hanswer, Except.ok.injEq, exists_eq_left']
      rw [or_and_right]
      refine or_congr_left (and_iff_left_of_imp ?_)
      rintro ⟨rfl, -⟩ failed e hfailed
      cases failed with
      | nil => exact absurd hfailed (hroot plan e)
      | cons i failed => exact List.nil_lt_cons i failed
    · rw [hasked, hrest, List.map_cons]

end Lookup.Walks

namespace WalkPlace

variable {s : Schema} {e : Plan.Entry} {value : Value}

theorem fails_column_iff {column : String} (htarget : e.target = .column column) (error : Error) :
    Fails s (.field e value) error ↔ Condition.leaf e column value = .error error := by
  constructor
  · intro h
    cases h with
    | leaf htarget' hleaf =>
      obtain rfl := Target.column.inj (htarget'.symm.trans htarget)
      exact hleaf
    | plan htarget' => cases htarget'.symm.trans htarget
  · exact .leaf htarget

theorem fails_group_iff {type : TypeId} (htarget : e.target = .group type) (error : Error) :
    Fails s (.field e value) error ↔ s.plan type = .error error := by
  constructor
  · intro h
    cases h with
    | leaf htarget' => cases htarget'.symm.trans htarget
    | plan htarget' hplan =>
      obtain rfl := Target.group.inj (htarget'.symm.trans htarget)
      exact hplan
  · exact .plan htarget

theorem fails_element_iff {plan : Plan} {item : Value} (error : Error) :
    Fails s (.element plan item) error ↔ item.normalize = .error error :=
  ⟨fun h => by cases h with | record hitem => exact hitem, .record⟩

theorem not_asks_column {column : String} (htarget : e.target = .column column) (type : TypeId) :
    ¬ Asks (.field e value) type := by
  rintro ⟨htarget'⟩
  cases htarget'.symm.trans htarget

theorem asks_group_iff {type : TypeId} (htarget : e.target = .group type) (asked : TypeId) :
    Asks (.field e value) asked ↔ asked = type := by
  constructor
  · rintro ⟨htarget'⟩
    exact Target.group.inj (htarget'.symm.trans htarget)
  · rintro rfl
    exact .group htarget

theorem not_asks_element (plan : Plan) (item : Value) (type : TypeId) :
    ¬ Asks (.element plan item) type := nofun

end WalkPlace

namespace Schema

variable {s : Schema} {r : Record} {entries : List Plan.Entry} {address : Address} {asked : TypeId}

/-- The questions below a record are those of its places. -/
theorem asks_iff_finds :
    s.Asks r entries address asked ↔ s.Finds WalkPlace.Asks r entries address asked := by
  constructor
  · intro h
    induction h with
    | here h htarget hset => exact ⟨_, .field h hset, .group htarget⟩
    | inside h htarget hset hplan hitem hinner _ ih =>
      obtain ⟨place, hmeets, hasks⟩ := ih
      exact ⟨place, .inside h hset htarget hplan hitem hinner hmeets, hasks⟩
  · rintro ⟨place, hmeets, hasks⟩
    induction hmeets with
    | field h hset =>
      cases hasks with
      | group htarget => exact .here h htarget hset
    | element => cases hasks
    | inside h hset htarget hplan hitem hinner _ ih =>
      exact .inside h htarget hset hplan hitem hinner (ih hasks)

inductive Failures (s : Schema) (value : Value) : Address → Error → Prop where
  | input {e : Error} (h : value.normalize = .error e) : Failures s value [] e
  | plan {r : Record} {e : Error} (h : value.normalize = .ok r) (hplan : s.plan r.type = .error e) :
    Failures s value [] e
  | place {r : Record} {plan : Plan} {address : Address} {e : Error} (h : value.normalize = .ok r)
      (hplan : s.plan r.type = .ok plan)
      (hfinds : s.Finds (WalkPlace.Fails s) r plan.entries address e) : Failures s value address e

theorem failures_iff {value : Value} (h : value.normalize = .ok r) (address : Address) (e : Error) :
    s.Failures value address e ↔ (address = [] ∧ s.plan r.type = .error e) ∨
      ∃ plan, s.plan r.type = .ok plan ∧ s.Finds (WalkPlace.Fails s) r plan.entries address e := by
  constructor
  · intro hfails
    cases hfails with
    | input h' => cases h.symm.trans h'
    | plan h' hplan =>
      obtain rfl := Except.ok.inj (h.symm.trans h')
      exact .inl ⟨rfl, hplan⟩
    | place h' hplan hfinds =>
      obtain rfl := Except.ok.inj (h.symm.trans h')
      exact .inr ⟨_, hplan, hfinds⟩
  · rintro (⟨rfl, hplan⟩ | ⟨plan, hplan, hfinds⟩)
    · exact .plan h hplan
    · exact .place h hplan hfinds

theorem visits_iff {value : Value} (h : value.normalize = .ok r) (address : Address) (asked : TypeId) :
    s.Visits value address asked ↔ (address = [] ∧ asked = r.type) ∨
      ∃ plan, s.plan r.type = .ok plan ∧ s.Finds WalkPlace.Asks r plan.entries address asked := by
  simp [Visits, h, AsksThen, asks_iff_finds]

end Schema

namespace Condition

open Schema

/-- Both walks ask and fail as their places say, on any record and any elements. -/
theorem walks_parts_branches (s : Schema) :
    (∀ (r : Record) (entries : List Plan.Entry),
      Lookup.Walks s.plan (s.Finds (WalkPlace.Fails s) r entries) (s.Finds WalkPlace.Asks r entries)
        (parts r entries)) ∧
    (∀ (plan : Plan) (items : List Value),
      Lookup.Walks s.plan (s.ItemsFind (WalkPlace.Fails s) plan items)
        (s.ItemsFind WalkPlace.Asks plan items) (branches plan items)) := by
  refine fields_items_induction ?done ?unset ?column ?group ?none ?noRecord ?record
  case done =>
    intro r
    rw [parts_nil]
    exact .done (fun _ _ => not_finds_nil) (fun _ _ => not_finds_nil) []
  case unset =>
    intro r e rest hunset ih
    rw [parts_cons_of_unset rest hunset]
    exact ih.of_tail (splits_finds s _ r e rest) (splits_finds s _ r e rest)
      (not_finds_unset hunset rest) (not_finds_unset hunset rest)
  case column =>
    intro r e rest value column hset htarget ih
    rw [parts_cons_of_set rest hset]
    refine .bind (splits_finds s _ r e rest) (splits_finds s _ r e rest) ?_ fun c _ => ih.map _
    rw [part, htarget]
    refine .ofExcept (fun address error => ?_) fun address type => ?_
    · rw [finds_column_iff hset htarget, WalkPlace.fails_column_iff htarget]
    · simp [finds_column_iff hset htarget, WalkPlace.not_asks_column htarget]
  case group =>
    intro r e rest value type hset htarget ihitems ih
    rw [parts_cons_of_set rest hset]
    refine .bind (splits_finds s _ r e rest) (splits_finds s _ r e rest) ?_ fun c _ => ih.map _
    have hfails : ∀ address error, s.Finds (WalkPlace.Fails s) r (e :: rest) (0 :: address) error ↔
        (address = [] ∧ s.plan type = .error error) ∨ ∃ plan, s.plan type = .ok plan ∧
          s.ItemsFind (WalkPlace.Fails s) plan value.alternatives address error := by
      intro address error
      rw [finds_group_iff hset htarget, WalkPlace.fails_group_iff htarget]
    have hasks : ∀ address asked, s.Finds WalkPlace.Asks r (e :: rest) (0 :: address) asked ↔
        (address = [] ∧ asked = type) ∨ ∃ plan, s.plan type = .ok plan ∧
          s.ItemsFind WalkPlace.Asks plan value.alternatives address asked := by
      intro address asked
      rw [finds_group_iff hset htarget, WalkPlace.asks_group_iff htarget]
    rw [part, htarget]
    refine .ask hfails hasks (fun _ => not_itemsFind_root) (fun _ => not_itemsFind_root) fun plan _ => ?_
    rw [group_eq]
    exact (ihitems plan).map _
  case none =>
    intro plan
    rw [branches_nil]
    exact .done (fun _ _ => not_itemsFind_nil) (fun _ _ => not_itemsFind_nil) []
  case noRecord =>
    intro plan item rest e hitem
    rw [branches_cons_of_error rest hitem]
    have hitemFails : Lookup.Walks s.plan
        (fun address => s.ItemsFind (WalkPlace.Fails s) plan (item :: rest) (0 :: address))
        (fun address => s.ItemsFind WalkPlace.Asks plan (item :: rest) (0 :: address))
        (.ofExcept item.normalize) := by
      refine .ofExcept (fun address error => ?_) fun address type => ?_
      · simp [itemsFind_zero_iff, WalkPlace.fails_element_iff, hitem]
      · simp [itemsFind_zero_iff, WalkPlace.not_asks_element, hitem]
    have hfail := hitemFails.bind (splits_itemsFind s _ plan item rest)
      (splits_itemsFind s _ plan item rest) (f := fun _ => Lookup.fail (α := List Condition) e)
      (by simp [hitem, Lookup.run_ofExcept])
    rwa [hitem] at hfail
  case record =>
    intro plan item rest r hitem ihfields ih
    rw [branches_cons_of_normalize rest hitem]
    refine .bind (splits_itemsFind s _ plan item rest) (splits_itemsFind s _ plan item rest) ?_
      fun cs _ => ih.map _
    refine ihfields.congr (fun address error => ?_) fun address asked => ?_
    · simp [itemsFind_zero_iff, WalkPlace.fails_element_iff, hitem]
    · simp [itemsFind_zero_iff, WalkPlace.not_asks_element, hitem]

/-- A condition builder asks for the types that a snapshot visits before its first failure, with which
it fails. -/
theorem walks_ofValue (s : Schema) (value : Value) :
    Lookup.Walks s.plan (s.Failures value) (s.Visits value) (ofValue value) := by
  cases hr : value.normalize with
  | error e =>
    have hvalue : ofValue value = .ofExcept (.error e) := by rw [ofValue, hr]; rfl
    rw [hvalue]
    refine .ofExcept (fun address error => ?_) fun address asked => ?_
    · constructor
      · intro hfails
        cases hfails with
        | input h =>
          obtain rfl := Except.error.inj (hr.symm.trans h)
          exact ⟨rfl, rfl⟩
        | plan h => cases hr.symm.trans h
        | place h => cases hr.symm.trans h
      · rintro ⟨rfl, ⟨⟩⟩
        exact .input hr
    · simp [Visits, hr]
  | ok r =>
    rw [ofValue, hr]
    exact .ask (failures_iff hr) (visits_iff hr) (fun _ => not_finds_root) (fun _ => not_finds_root)
      fun plan _ => ((walks_parts_branches s).1 r plan.entries).map _

end Condition

namespace Schema

def resolvable (s : Schema) (type : TypeId) : List TypeId :=
  match s.plan type with
  | .ok _ => [type]
  | .error _ => []

theorem asked_ask_done (s : Schema) (type : TypeId) :
    (Lookup.ask type .done).asked s.plan = s.resolvable type := by
  simp only [Lookup.asked, resolvable]

end Schema

/-- An update asks for the type of its record alone. -/
theorem Assignments.asked_ofValue (s : Schema) (dialect : Dialect) (value : Value) :
    (ofValue dialect value).asked s.plan =
      match value.normalize with
      | .ok r => s.resolvable r.type
      | .error _ => [] := by
  rw [ofValue]
  cases value.normalize with
  | error e => rfl
  | ok r =>
    simp only [Lookup.asked, Lookup.asked_ofExcept, Schema.resolvable]

end Criteria
