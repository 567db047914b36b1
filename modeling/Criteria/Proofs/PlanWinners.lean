import Mathlib
import Criteria.Proofs.PlanWalk

set_option autoImplicit false

namespace Criteria

/-- An entry that a declaration offers, its own one (`direct`) or one of its embedded struct. -/
structure Candidate where
  entry : Plan.Entry
  direct : Bool

namespace Candidate

def name (c : Candidate) : String := c.entry.name

/-- A name goes to its last direct candidate, and without one to the first embedded candidate. -/
def Wins (before : List Candidate) (c : Candidate) (after : List Candidate) : Prop :=
  if c.direct then ∀ later ∈ after, later.direct = true → later.name ≠ c.name
  else
    (∀ other ∈ before ++ after, other.direct = true → other.name ≠ c.name) ∧
      ∀ earlier ∈ before, earlier.direct = false → earlier.name ≠ c.name

instance (before : List Candidate) (c : Candidate) (after : List Candidate) :
    Decidable (Wins before c after) :=
  inferInstanceAs (Decidable (if c.direct then _ else _))

def winners (before : List Candidate) : List Candidate → List Plan.Entry
  | [] => []
  | c :: after =>
    if c.Wins before after then c.entry :: winners (before ++ [c]) after
    else winners (before ++ [c]) after

def add (done : List Plan.Entry) (c : Candidate) : List Plan.Entry :=
  if c.direct then Plan.redeclare c.entry done else Plan.addMissing done c.entry

variable {before after cs : List Candidate} {c new : Candidate}

theorem wins_last_iff : c.Wins before [] ↔ c.direct = true ∨ ∀ old ∈ before, old.name ≠ c.name := by
  unfold Wins
  cases c.direct with
  | true => simp
  | false =>
    simp only [Bool.false_eq_true, ↓reduceIte, List.append_nil, false_or]
    constructor
    · rintro ⟨hdirect, hembedded⟩ old hold
      cases hkind : old.direct with
      | true => exact hdirect old hold hkind
      | false => exact hembedded old hold hkind
    · intro hnew
      exact ⟨fun old hold _ => hnew old hold, fun old hold _ => hnew old hold⟩

theorem wins_append_iff :
    c.Wins before (after ++ [new]) ↔
      c.Wins before after ∧ (new.direct = true → new.name ≠ c.name) := by
  unfold Wins
  cases c.direct with
  | true => simp only [↓reduceIte, List.forall_mem_append, List.forall_mem_singleton]
  | false =>
    simp only [Bool.false_eq_true, ↓reduceIte, List.forall_mem_append, List.forall_mem_singleton]
    constructor
    · rintro ⟨⟨hbefore, hafter, hnew⟩, hearlier⟩
      exact ⟨⟨⟨hbefore, hafter⟩, hearlier⟩, hnew⟩
    · rintro ⟨⟨⟨hbefore, hafter⟩, hearlier⟩, hnew⟩
      exact ⟨⟨hbefore, hafter, hnew⟩, hearlier⟩

theorem winners_append_direct (h : new.direct = true) :
    winners before (cs ++ [new]) = Plan.redeclare new.entry (winners before cs) := by
  induction cs generalizing before with
  | nil =>
    have hwins : new.Wins before [] := wins_last_iff.2 (.inl h)
    simp [winners, hwins, Plan.redeclare]
  | cons c cs ih =>
    have hiff : c.Wins before (cs ++ [new]) ↔ c.Wins before cs ∧ c.entry.name ≠ new.entry.name := by
      rw [wins_append_iff]
      simp only [h, true_implies, name, ne_comm]
    rw [List.cons_append, winners, winners, ih]
    by_cases hwins : c.Wins before cs
    · by_cases hname : c.entry.name = new.entry.name
      · simp [hiff, hwins, hname, Plan.redeclare]
      · simp [hiff, hwins, hname, Plan.redeclare]
    · simp [hiff, hwins]

theorem winners_append_embedded (h : new.direct = false) :
    winners before (cs ++ [new]) =
      winners before cs ++
        if ∀ old ∈ before ++ cs, old.name ≠ new.name then [new.entry] else [] := by
  induction cs generalizing before with
  | nil =>
    have hiff : new.Wins before [] ↔ ∀ old ∈ before, old.name ≠ new.name := by
      rw [wins_last_iff]
      simp [h]
    simp [winners, hiff]
  | cons c cs ih =>
    have hiff : c.Wins before (cs ++ [new]) ↔ c.Wins before cs := by
      rw [wins_append_iff]
      simp [h]
    have hmove : before ++ [c] ++ cs = before ++ c :: cs := by simp
    rw [List.cons_append, winners, winners, ih, hmove]
    by_cases hwins : c.Wins before cs
    · simp only [hiff, hwins, ↓reduceIte, List.cons_append]
    · simp only [hiff, hwins, ↓reduceIte]

theorem exists_mem_winners_iff (cs : List Candidate) (name : String) :
    (∃ e ∈ winners [] cs, e.name = name) ↔ ∃ c ∈ cs, c.name = name := by
  induction cs using List.reverseRecOn with
  | nil => simp [winners]
  | append_singleton cs new ih =>
    cases hkind : new.direct with
    | true =>
      rw [winners_append_direct hkind]
      by_cases hname : new.name = name
      · exact ⟨fun _ => ⟨new, by simp, hname⟩, fun _ => ⟨new.entry, by simp [Plan.redeclare], hname⟩⟩
      · have hother : (∃ e ∈ Plan.redeclare new.entry (winners [] cs), e.name = name) ↔
            ∃ e ∈ winners [] cs, e.name = name := by
          change new.entry.name ≠ name at hname
          simp only [Plan.redeclare, List.mem_append, List.mem_filter, List.mem_singleton]
          grind
        rw [hother, ih]
        simp [hname]
    | false =>
      rw [winners_append_embedded hkind, List.nil_append]
      by_cases hfree : ∀ old ∈ cs, old.name ≠ new.name
      · rw [if_pos hfree]
        simp only [List.mem_append, or_and_right, exists_or, ih, List.mem_singleton, exists_eq_left]
        rfl
      · rw [if_neg hfree]
        simp only [List.append_nil, ih, List.mem_append, or_and_right, exists_or, List.mem_singleton,
          exists_eq_left]
        push Not at hfree
        obtain ⟨old, hold, hname⟩ := hfree
        constructor
        · exact .inl
        · rintro (hcs | rfl)
          · exact hcs
          · exact ⟨old, hold, hname⟩

theorem foldl_add_eq_winners (cs : List Candidate) : cs.foldl add [] = winners [] cs := by
  -- from the end: the last step of the walk meets the winners among the candidates before it
  induction cs using List.reverseRecOn with
  | nil => rfl
  | append_singleton cs new ih =>
    rw [List.foldl_append, ih, List.foldl_cons, List.foldl_nil, add]
    cases hkind : new.direct with
    | true => rw [winners_append_direct hkind, if_pos rfl]
    | false =>
      have htaken : (winners [] cs).any (fun old => old.name = new.entry.name) = true ↔
          ¬ ∀ old ∈ cs, old.name ≠ new.name := by
        rw [List.any_eq_true]
        simp only [decide_eq_true_eq, exists_mem_winners_iff]
        push Not
        rfl
      rw [winners_append_embedded hkind, Plan.addMissing, List.nil_append]
      by_cases hfree : ∀ old ∈ cs, old.name ≠ new.name
      · rw [if_neg (fun htrue => htaken.1 htrue hfree), if_pos hfree]
        rfl
      · rw [if_pos (htaken.2 hfree), if_neg hfree, List.append_nil]
        rfl

end Candidate

namespace Schema

def candidatesOf (s : Schema) (d : Declaration) : List Candidate :=
  if d.isDeclared then
    match d.role? with
    | some (.entry target) => [⟨d.entry [d.name] target, true⟩]
    | some (.embeds inner) =>
      match s.plan inner with
      | .ok plan => plan.entries.map fun e => ⟨e.under [d.name], false⟩
      | .error _ => []
    | none => []
  else []

def candidates (s : Schema) (fields : List Declaration) : List Candidate :=
  fields.flatMap s.candidatesOf

variable {s : Schema} {chain : List TypeId} {fields : List Declaration}
  {done entries : List Plan.Entry}

theorem foldl_add_embedded (name : String) (found done : List Plan.Entry) :
    (found.map fun e => (⟨e.under [name], false⟩ : Candidate)).foldl Candidate.add done =
      Plan.fill (found.map (Plan.Entry.under [name])) done := by
  rw [Plan.fill, List.foldl_map, List.foldl_map]
  rfl

/-- Every declared field offers something, and the walk takes the candidates one after the other. -/
theorem WalksTo.eq_foldl_add {path : List String} (h : s.WalksTo chain path fields done entries)
    (hpath : path = []) :
    (∀ d ∈ fields, d.isDeclared = true → (∃ target, d.role? = some (.entry target)) ∨
      ∃ inner plan, d.Embeds inner ∧ s.plan inner = .ok plan) ∧
    entries = (s.candidates fields).foldl Candidate.add done := by
  induction h with
  | nil => exact ⟨by simp, rfl⟩
  | @skip chain path d rest done entries hdeclared _ ih =>
    obtain ⟨hoffers, heq⟩ := ih hpath
    have hnone : s.candidatesOf d = [] := by simp [candidatesOf, hdeclared]
    refine ⟨List.forall_mem_cons.2 ⟨by simp [hdeclared], hoffers⟩, ?_⟩
    rw [candidates, List.flatMap_cons, hnone, List.nil_append]
    exact heq
  | @entry chain path d rest done entries target hdeclared _ hrole _ ih =>
    obtain ⟨hoffers, heq⟩ := ih hpath
    have hone : s.candidatesOf d = [⟨d.entry [d.name] target, true⟩] := by
      simp [candidatesOf, hdeclared, hrole]
    refine ⟨List.forall_mem_cons.2 ⟨fun _ => .inl ⟨target, hrole⟩, hoffers⟩, ?_⟩
    rw [candidates, List.flatMap_cons, hone, List.foldl_append]
    rw [hpath] at heq
    exact heq
  | @embeds chain path d rest done found entries inner _ hembeds _ hinner _ _ ih =>
    obtain ⟨hoffers, heq⟩ := ih hpath
    subst hpath
    obtain ⟨plan, hplan, hfound⟩ := hinner.exists_plan
    have hrole := Declaration.embeds_iff_role?.1 hembeds
    have hmany : s.candidatesOf d = plan.entries.map fun e => ⟨e.under [d.name], false⟩ := by
      simp [candidatesOf, Declaration.isDeclared_of_embedded hembeds.1, hrole, hplan]
    refine ⟨List.forall_mem_cons.2 ⟨fun _ => .inr ⟨inner, plan, hembeds, hplan⟩, hoffers⟩, ?_⟩
    rw [candidates, List.flatMap_cons, hmany, List.foldl_append, foldl_add_embedded, ← hfound]
    exact heq

/-- The entries of a plan are the winning candidates in their order, and nothing that is declared fails
to be a candidate: it has an entry of its own, or it embeds a struct that has a plan. -/
theorem plan_entries_eq_winners (s : Schema) {type : TypeId} {plan : Plan}
    (h : s.plan type = .ok plan) :
    (∀ d ∈ s.fieldsOf type, d.isDeclared = true → (∃ target, d.role? = some (.entry target)) ∨
      ∃ inner embedded, d.Embeds inner ∧ s.plan inner = .ok embedded) ∧
    plan.entries = Candidate.winners [] (s.candidates (s.fieldsOf type)) := by
  obtain ⟨-, hwalk⟩ := plan_eq_ok_iff.1 h
  obtain ⟨hoffers, heq⟩ := hwalk.eq_foldl_add rfl
  exact ⟨hoffers, heq.trans (Candidate.foldl_add_eq_winners _)⟩

def plainField (name : String) : Declaration :=
  { name := name, shape := .int, annotations := { column := some name } }

def embeddedField (name : String) (type : TypeId) : Declaration :=
  { name := name, shape := .optional (.struct type), embedded := true }

def reports : Schema :=
  ⟨[⟨"Report", [embeddedField "period" 1, plainField "to", embeddedField "scope" 2,
      plainField "limit", plainField "to"]⟩,
    ⟨"Period", [plainField "from", plainField "to"]⟩,
    ⟨"Scope", [plainField "limit", plainField "from", plainField "page"]⟩]⟩

def reportPlan : Plan :=
  ⟨0, [(plainField "from").entry ["period", "from"] (.column "from"),
    (plainField "page").entry ["scope", "page"] (.column "page"),
    (plainField "limit").entry ["limit"] (.column "limit"),
    (plainField "to").entry ["to"] (.column "to")]⟩

theorem reportPlan_entries :
    reports.plan 0 = .ok reportPlan ∧
      (∀ d ∈ reports.fieldsOf 0, d.isDeclared = true →
        (∃ target, d.role? = some (.entry target)) ∨
          ∃ inner embedded, d.Embeds inner ∧ reports.plan inner = .ok embedded) ∧
      reportPlan.entries = Candidate.winners [] (reports.candidates (reports.fieldsOf 0)) :=
  have hplan : reports.plan 0 = .ok reportPlan := by cbv
  ⟨hplan, plan_entries_eq_winners reports hplan⟩

end Schema

end Criteria
