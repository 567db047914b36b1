import Mathlib
import Criteria.Proofs.AlikeDeclarations
import Criteria.Proofs.CacheTransparency
import Criteria.Proofs.Readings

set_option autoImplicit false

namespace Criteria

def blankColumns : List (Option String) := [none, some "", some "-"]

def blankTokens : List (Option String) := [none, some ""]

/-- Each token is written in the same way, or it says nothing in both. -/
structure Annotations.Respells (a b : Annotations) : Prop where
  column : b.column = a.column ∨ (a.column ∈ blankColumns ∧ b.column ∈ blankColumns)
  query : b.query = a.query ∨ (a.query ∈ blankTokens ∧ b.query ∈ blankTokens)
  update : b.update = a.update ∨ (a.update ∈ blankTokens ∧ b.update ∈ blankTokens)

structure Declaration.Respells (d twin : Declaration) : Prop where
  name : twin.name = d.name
  shape : twin.shape = d.shape
  embedded : twin.embedded = d.embedded
  annotations : d.annotations.Respells twin.annotations

structure StructType.Respells (a b : StructType) : Prop where
  name : b.name = a.name
  fields : List.Forall₂ Declaration.Respells a.fields b.fields

/-- `t` is `s` with some tokens that say nothing written in another way or left out, or written anew. -/
def Schema.Respells (s t : Schema) : Prop := List.Forall₂ StructType.Respells s.types t.types

theorem filter_eq_none_of_blank {column : Option String} (h : column ∈ blankColumns) :
    (column.filter fun c => c ≠ "" ∧ c ≠ "-") = none := by
  simp only [blankColumns, List.mem_cons, List.not_mem_nil, or_false] at h
  rcases h with rfl | rfl | rfl <;> rfl

theorem getD_eq_of_blank {token : Option String} (h : token ∈ blankTokens) : token.getD "" = "" := by
  simp only [blankTokens, List.mem_cons, List.not_mem_nil, or_false] at h
  rcases h with rfl | rfl <;> rfl

namespace Declaration.Respells

variable {d twin : Declaration}

theorem column?_eq (h : d.Respells twin) : twin.column? = d.column? := by
  unfold column?
  rcases h.annotations.column with hsame | ⟨hd, htwin⟩
  · rw [hsame]
  · rw [filter_eq_none_of_blank hd, filter_eq_none_of_blank htwin]

theorem queryToken_eq (h : d.Respells twin) : twin.queryToken = d.queryToken := by
  unfold queryToken
  rcases h.annotations.query with hsame | ⟨hd, htwin⟩
  · rw [hsame]
  · rw [getD_eq_of_blank hd, getD_eq_of_blank htwin]

theorem updateToken_eq (h : d.Respells twin) : twin.updateToken = d.updateToken := by
  unfold updateToken
  rcases h.annotations.update with hsame | ⟨hd, htwin⟩
  · rw [hsame]
  · rw [getD_eq_of_blank hd, getD_eq_of_blank htwin]

/-- No rule and no role reads more of the annotations than the three tokens. -/
theorem alike (h : d.Respells twin) : d.Alike Plan.Entry.unwritten twin := by
  have hor : twin.isOr = d.isOr := by rw [isOr, isOr, h.queryToken_eq]
  have hquery : twin.query? = d.query? := by rw [query?, query?, h.queryToken_eq]
  have hupdate : twin.update? = d.update? := by rw [update?, update?, h.updateToken_eq]
  have hshape : twin.shapeFault? = d.shapeFault? := by
    rw [shapeFault?, shapeFault?, hquery, h.shape]
  refine ⟨h.name, ?isDeclared, ?fault, ?role, ?entry⟩
  case isDeclared =>
    rw [isDeclared, isDeclared, h.embedded, h.column?_eq, h.queryToken_eq, h.updateToken_eq]
  case fault =>
    simp only [fault?, rules, List.findSome?_cons, List.findSome?_nil, h.embedded, h.shape, h.column?_eq,
      h.queryToken_eq, h.updateToken_eq, hor, hquery, hupdate, hshape]
  case role =>
    rw [role?, role?, h.embedded, h.shape, h.column?_eq, hor]
  case entry =>
    intro path target
    rw [entry, entry, h.name, hquery, hupdate]
    rfl

end Declaration.Respells

namespace Schema

variable {s t : Schema}

theorem Respells.struct?_cases (h : s.Respells t) (type : TypeId) :
    (s.struct? type = none ∧ t.struct? type = none) ∨
      ∃ a b, s.struct? type = some a ∧ t.struct? type = some b ∧ a.Respells b := by
  obtain ⟨types⟩ := s
  obtain ⟨others⟩ := t
  change List.Forall₂ StructType.Respells types others at h
  change (types[type]? = none ∧ others[type]? = none) ∨
    ∃ a b, types[type]? = some a ∧ others[type]? = some b ∧ a.Respells b
  induction h generalizing type with
  | nil => exact .inl ⟨rfl, rfl⟩
  | @cons a b _ _ hstruct _ ih =>
    cases type with
    | zero => exact .inr ⟨a, b, rfl, rfl, hstruct⟩
    | succ type => exact ih type

theorem Respells.alike (h : s.Respells t) : s.Alike Plan.Entry.unwritten t := by
  constructor
  · intro type
    unfold nameOf
    obtain ⟨hs, ht⟩ | ⟨a, b, hs, ht, hstruct⟩ := h.struct?_cases type
    · rw [hs, ht]
    · rw [hs, ht]
      exact hstruct.name
  · intro type
    unfold fieldsOf
    obtain ⟨hs, ht⟩ | ⟨a, b, hs, ht, hstruct⟩ := h.struct?_cases type
    · rw [hs, ht]
      exact .nil
    · rw [hs, ht]
      exact hstruct.fields.imp fun _ _ => Declaration.Respells.alike

theorem Respells.plan_eq (h : s.Respells t) (type : TypeId) :
    (t.plan type).map (fun plan => plan.entries.map Plan.Entry.unwritten) =
      (s.plan type).map fun plan => plan.entries.map Plan.Entry.unwritten :=
  h.alike.plan_eq (fun _ => rfl) type

theorem Respells.freshCondition_eq (h : s.Respells t) (input : Outcome Value) :
    t.freshCondition input = s.freshCondition input := by
  have hplans : ∀ type, (t.plan type).map (fun plan => plan.entries.map Plan.Entry.queried) =
      (s.plan type).map fun plan => plan.entries.map Plan.Entry.queried :=
    fun type => Plan.map_queried_of_unwritten (h.plan_eq type)
  unfold freshCondition
  simp only [Condition.run_ofValue_congr_answer hplans]

theorem Respells.freshUpdate_eq (h : s.Respells t) (dialect : Dialect) (input : Outcome Value) :
    t.freshUpdate dialect input = s.freshUpdate dialect input := by
  unfold freshUpdate
  simp only [Assignments.run_ofValue_congr_answer h.plan_eq]

/-- A token that says nothing may as well not be written. Every type has the same fault or the same entries
in the same order, but for the annotations as they were written, and every call on a snapshot has the same
result, whatever the caches of the two hosts hold. -/
theorem Respells.plans_and_calls_eq (h : s.Respells t) :
    (∀ type, (t.plan type).map (fun plan => plan.entries.map Plan.Entry.unwritten) =
      (s.plan type).map fun plan => plan.entries.map Plan.Entry.unwritten) ∧
    ∀ (actions twinActions : List Action) (id twinId : CacheId) (input : Outcome Value),
      let c := (Host.after s actions).cache id
      let twin := (Host.after t twinActions).cache twinId
      (t.conditionCall input twin).result = (s.conditionCall input c).result ∧
        ∀ dialect, (t.updateCall dialect input twin).result = (s.updateCall dialect input c).result := by
  refine ⟨h.plan_eq, fun actions twinActions id twinId input => ?_⟩
  intro c twin
  have hc : c.Sound s := Host.sound_cache_after s actions id
  have htwin : twin.Sound t := Host.sound_cache_after t twinActions twinId
  constructor
  · rw [(s.transparent_conditionCall input).result c hc,
      (t.transparent_conditionCall input).result twin htwin, h.freshCondition_eq]
  · intro dialect
    rw [(s.transparent_updateCall dialect input).result c hc,
      (t.transparent_updateCall dialect input).result twin htwin, h.freshUpdate_eq]

def eventFilter (columnToken token : Option String) : Schema :=
  ⟨[⟨"Filter", [⟨"name", .text, false, ⟨some "name", token, token⟩⟩,
      ⟨"note", .text, false, ⟨columnToken, token, token⟩⟩,
      ⟨"window", .struct 1, true, ⟨columnToken, none, token⟩⟩,
      ⟨"any", .list (.struct 1), false, ⟨columnToken, some "or", token⟩⟩]⟩,
    ⟨"Window", [⟨"since", .int, false, ⟨some "at", some ">=", token⟩⟩,
      ⟨"kind", .text, false, ⟨some "kind", token, some "+"⟩⟩,
      ⟨"color", .text, false, ⟨columnToken, token, none⟩⟩]⟩]⟩

theorem eventFilter_respells {column other : Option String} {token otherToken : Option String}
    (hcolumn : column ∈ blankColumns) (hother : other ∈ blankColumns) (htoken : token ∈ blankTokens)
    (hotherToken : otherToken ∈ blankTokens) :
    (eventFilter column token).Respells (eventFilter other otherToken) := by
  have hc : other = column ∨ (column ∈ blankColumns ∧ other ∈ blankColumns) := .inr ⟨hcolumn, hother⟩
  have ht : otherToken = token ∨ (token ∈ blankTokens ∧ otherToken ∈ blankTokens) :=
    .inr ⟨htoken, hotherToken⟩
  refine .cons ⟨rfl, ?filter⟩ (.cons ⟨rfl, ?window⟩ .nil)
  case filter =>
    exact .cons ⟨rfl, rfl, rfl, .inl rfl, ht, ht⟩ (.cons ⟨rfl, rfl, rfl, hc, ht, ht⟩
      (.cons ⟨rfl, rfl, rfl, hc, .inl rfl, ht⟩ (.cons ⟨rfl, rfl, rfl, hc, .inl rfl, ht⟩ .nil)))
  case window =>
    exact .cons ⟨rfl, rfl, rfl, .inl rfl, .inl rfl, ht⟩ (.cons ⟨rfl, rfl, rfl, .inl rfl, ht, .inl rfl⟩
      (.cons ⟨rfl, rfl, rfl, hc, ht, .inl rfl⟩ .nil))

def recentEvents : Value :=
  .record 0 [("name", .text "login"), ("note", .text "seen"),
    ("window", .record 1 [("since", .int 5), ("kind", .text "web"), ("color", .text "red")]),
    ("any", .list [.record 1 [("since", .int 9), ("kind", .text "app")]])]

/-- The plans are written differently and say the same, on hosts that differ in what they have cached. -/
theorem eventFilter_plans_and_calls :
    let s := eventFilter (some "-") (some "")
    let t := eventFilter none none
    let c := (Host.after s [.perform (.resolve 0 0)]).cache 0
    let twin := (Host.after t []).cache 0
    s.Respells t ∧
      (t.plan 0).map (fun plan => plan.entries.map Plan.Entry.unwritten) =
        (s.plan 0).map (fun plan => plan.entries.map Plan.Entry.unwritten) ∧
      (s.plan 0).map (fun plan => plan.entries.map (·.written)) = .ok
        [[("column", "name"), ("query", ""), ("update", "")], [("column", "at"), ("query", ">="), ("update", "")],
          [("column", "kind"), ("query", ""), ("update", "+")],
          [("column", "-"), ("query", "or"), ("update", "")]] ∧
      (t.conditionCall (.returned recentEvents) twin).result =
        (s.conditionCall (.returned recentEvents) c).result ∧
      (t.conditionCall (.returned recentEvents) twin).result = .ok (some (.all
        [.compare "name" .eq (.text "login"), .compare "at" .gte (.int 5), .compare "kind" .eq (.text "web"),
          .any [.compare "at" .gte (.int 9), .compare "kind" .eq (.text "app")]])) ∧
      (t.updateCall .mysql (.returned recentEvents) twin).result =
        (s.updateCall .mysql (.returned recentEvents) c).result ∧
      (t.updateCall .mysql (.returned recentEvents) twin).result.map (·.toList) = .ok
        [("at", .set (.int 5)), ("kind", .compute ⟨"kind + ?", [.text "web"]⟩),
          ("name", .set (.text "login"))] := by
  intro s t c twin
  have h : s.Respells t := eventFilter_respells (by decide) (by decide) (by decide) (by decide)
  obtain ⟨hplans, hcalls⟩ := h.plans_and_calls_eq
  obtain ⟨hcondition, hupdate⟩ :=
    hcalls [.perform (.resolve 0 0)] [] 0 0 (.returned recentEvents)
  exact ⟨h, hplans 0, by cbv, hcondition, by cbv, hupdate .mysql, by cbv⟩

end Schema

end Criteria
