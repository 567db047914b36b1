import Mathlib
import Criteria.Proofs.ConditionOutline
import Criteria.Proofs.StoredDocuments

set_option autoImplicit false

namespace Criteria

namespace Condition

variable {e : Plan.Entry} {value stored : Value} {column : String}

theorem outcome_among (column : String) (value : Value) :
    outcome (do return some (.among column (← QueryOp.members column value))) =
      if value.list?.isSome then some (some (.among column [])) else none := by
  cases value <;> rfl

theorem outcome_notAmong (column : String) (value : Value) :
    outcome (do return some (.notAmong column (← QueryOp.members column value))) =
      if value.list?.isSome then some (some (.notAmong column [])) else none := by
  cases value <;> rfl

theorem outcome_matching (column : String) (value : Value) :
    outcome (QueryOp.matching column value) =
      if value.text?.isSome then some (some (.compare column .like .null)) else none := by
  cases value <;> rfl

theorem outcome_nullness (column : String) (value : Value) :
    outcome (.ok (QueryOp.nullness column value)) =
      some (value.bool?.map fun b => if b then isNull column else isNotNull column) := by
  cases value with
  | bool b => cases b <;> rfl
  | _ => rfl

theorem outcome_leaf_of_sameKind (h : Schema.SameKind value stored) :
    outcome (leaf e column value) = outcome (leaf e column stored) := by
  unfold leaf
  cases e.queryOp with
  | among =>
    change outcome (do return some (.among column (← QueryOp.members column value))) =
      outcome (do return some (.among column (← QueryOp.members column stored)))
    rw [outcome_among, outcome_among, h.list?_isSome_eq]
  | notAmong =>
    change outcome (do return some (.notAmong column (← QueryOp.members column value))) =
      outcome (do return some (.notAmong column (← QueryOp.members column stored)))
    rw [outcome_notAmong, outcome_notAmong, h.list?_isSome_eq]
  | like =>
    change outcome (QueryOp.matching column value) = outcome (QueryOp.matching column stored)
    rw [outcome_matching, outcome_matching, h.text?_eq]
  | null =>
    change outcome (.ok (QueryOp.nullness column value)) = outcome (.ok (QueryOp.nullness column stored))
    rw [outcome_nullness, outcome_nullness, h.bool?_eq]
  | _ => rfl

theorem outcome_leaf_of_isComparison (h : e.queryOp.isComparison = true) (value other : Value) :
    outcome (leaf e column value) = outcome (leaf e column other) := by
  unfold leaf
  cases hop : e.queryOp with
  | among | notAmong | like | null | or => rw [hop] at h; cases h
  | _ => rfl

theorem outcome_leaf_document_of_error {error : Error} (h : leaf e column value = .error error)
    (document : Except String Json) : outcome (leaf e column (.document document)) = none := by
  -- comparisons and tests for null rows never fail, and what checks the kind of a value takes no document
  unfold leaf at h ⊢
  cases hop : e.queryOp with
  | among | notAmong | like | or => rfl
  | _ => rw [hop] at h; cases h

end Condition

namespace Schema

open Condition

variable {s t : Schema} {type : TypeId} {value stored : Value} {r other : Record} {d : Declaration}
  {e : Plan.Entry}

theorem Merging.run_ofValue_eq (h : s.Merging t) (value : Value) :
    (ofValue value).run t.plan = (ofValue value).run s.plan :=
  run_ofValue_congr_answer h.plan_eq value

theorem exists_run_part_document_error (htarget : e.target = .group type)
    (document : Except String Json) : ∃ error, (part e (.document document)).run s.plan = .error error := by
  rw [run_part_group _ _ htarget]
  cases s.plan type with
  | error error => exact ⟨error, rfl⟩
  | ok plan =>
    have hitem : (Value.document document).normalize = .error (.input "document") := rfl
    refine ⟨.input "document", ?_⟩
    change ((branches plan [.document document]).run s.plan).map _ = _
    rw [run_branches_error _ [] hitem]
    rfl

theorem Bears.outcome_part (h : s.Bears e value) (document : Except String Json) :
    outcome ((part e value).run s.plan) = outcome ((part e (.document document)).run s.plan) := by
  cases h with
  | comparison htarget hcompares =>
    rw [run_part_column _ _ htarget, run_part_column _ _ htarget]
    exact outcome_leaf_of_isComparison hcompares _ _
  | nullness htarget hquery hnobool =>
    rw [run_part_column _ _ htarget, run_part_column _ _ htarget, leaf, leaf, hquery]
    change outcome (.ok (QueryOp.nullness _ value)) = some none
    rw [outcome_nullness, hnobool]
    rfl
  | failing hfails =>
    cases hcase : e.target with
    | column column =>
      rw [run_part_column _ _ hcase] at hfails ⊢
      rw [run_part_column _ _ hcase, outcome_leaf_document_of_error hfails, hfails]
      rfl
    | group type =>
      obtain ⟨error, hdocument⟩ := exists_run_part_document_error hcase document
      exact outcome_eq_of_error hfails hdocument

/-- One entry adds the same to both conditions, if below its group everything does. -/
theorem GivesStored.outcome_made (h : s.GivesStored t e (r.given? e.path) (other.given? e.path))
    (hgroup : ∀ value type, r.given? e.path = some value → e.target = .group type →
      ∀ plan, s.plan type = .ok plan → ∀ entries items, (∀ e ∈ plan.entries, e ∈ entries) →
        List.Forall₂ (s.Alternatives t s.Tolerates entries) value.alternatives items →
          outcomes ((branches plan value.alternatives).run s.plan) =
            outcomes ((branches plan items).run s.plan)) :
    outcome (made s.plan r e) = outcome (made s.plan other e) := by
  cases hvalue : r.given? e.path with
  | none =>
    cases hstored : other.given? e.path with
    | none => rw [made_of_unset hvalue, made_of_unset hstored]
    | some stored => rw [hvalue, hstored] at h; cases h
  | some value =>
    cases hstored : other.given? e.path with
    | none =>
      rw [hvalue, hstored] at h
      cases h with
      | idle hidle => rw [made_of_set hvalue, made_of_unset hstored, hidle]
    | some stored =>
      rw [made_of_set hvalue, made_of_set hstored]
      rw [hvalue, hstored] at h
      cases h with
      | document outcome hbears => exact hbears.outcome_part outcome
      | @kept entries _ _ _ hread hkept =>
        cases hcase : e.target with
        | column column =>
          rw [run_part_column _ _ hcase, run_part_column _ _ hcase]
          exact outcome_leaf_of_sameKind hkept.sameKind
        | group type =>
          rw [run_part_group _ _ hcase, run_part_group _ _ hcase]
          cases hplan : s.plan type with
          | error error => rfl
          | ok plan =>
            have hentries : ∀ e ∈ plan.entries, e ∈ entries := by
              have hbelow := hread type hcase
              rwa [entriesFor_of_plan hplan] at hbelow
            exact outcome_join false
              (hgroup value type hvalue hcase plan hplan entries _ hentries hkept.alternatives)

theorem outcomes_parts_cons {entries rest : List Plan.Entry} (he : e ∈ entries)
    (hholds : s.HoldsFields t s.Tolerates entries r other)
    (hgroup : ∀ value type, r.given? e.path = some value → e.target = .group type →
      ∀ plan, s.plan type = .ok plan → ∀ entries items, (∀ e ∈ plan.entries, e ∈ entries) →
        List.Forall₂ (s.Alternatives t s.Tolerates entries) value.alternatives items →
          outcomes ((branches plan value.alternatives).run s.plan) =
            outcomes ((branches plan items).run s.plan))
    (hrest : outcomes ((parts r rest).run s.plan) = outcomes ((parts other rest).run s.plan)) :
    outcomes ((parts r (e :: rest)).run s.plan) = outcomes ((parts other (e :: rest)).run s.plan) := by
  rw [run_parts_cons, run_parts_cons]
  exact outcomes_append ((hholds.givesStored he).outcome_made hgroup) hrest

/-- Both walks, over the fields of a record and over the alternatives of a group. -/
theorem outcomes_parts_branches :
    (∀ (r : Record) (walked : List Plan.Entry), ∀ entries other, (∀ e ∈ walked, e ∈ entries) →
      s.HoldsFields t s.Tolerates entries r other →
      outcomes ((parts r walked).run s.plan) = outcomes ((parts other walked).run s.plan)) ∧
    ∀ (plan : Plan) (items : List Value), ∀ entries stored, (∀ e ∈ plan.entries, e ∈ entries) →
      List.Forall₂ (s.Alternatives t s.Tolerates entries) items stored →
      outcomes ((branches plan items).run s.plan) = outcomes ((branches plan stored).run s.plan) := by
  refine fields_items_induction ?done ?unset ?column ?group ?none ?noRecord ?record
  case done =>
    intro r entries other _ _
    rw [parts_nil, parts_nil]
  case unset =>
    intro r e rest hunset ih entries other hwalked hholds
    obtain ⟨he, hrest⟩ := List.forall_mem_cons.1 hwalked
    refine outcomes_parts_cons he hholds ?_ (ih entries other hrest hholds)
    intro value type hset
    rw [hunset] at hset
    cases hset
  case column =>
    intro r e rest value column hset htarget ih entries other hwalked hholds
    obtain ⟨he, hrest⟩ := List.forall_mem_cons.1 hwalked
    refine outcomes_parts_cons he hholds ?_ (ih entries other hrest hholds)
    intro value type _ hgroup
    rw [htarget] at hgroup
    cases hgroup
  case group =>
    intro r e rest value type hset htarget ihitems ih entries other hwalked hholds
    obtain ⟨he, hrest⟩ := List.forall_mem_cons.1 hwalked
    refine outcomes_parts_cons he hholds ?_ (ih entries other hrest hholds)
    intro found _ hfound _ plan _ entries items hentries hitems
    obtain rfl : value = found := Option.some.inj (hset.symm.trans hfound)
    exact ihitems plan entries items hentries hitems
  case none =>
    intro plan entries stored _ hitems
    cases hitems
    rfl
  case noRecord =>
    intro plan item rest e hitem entries stored _ hitems
    obtain ⟨storedItem, storedRest, halternative, -, rfl⟩ := List.forall₂_cons_left_iff.1 hitems
    obtain ⟨other, hother⟩ := halternative.error e hitem
    rw [run_branches_error _ _ hitem, run_branches_error _ _ hother]
    rfl
  case record =>
    intro plan item rest r hitem ihfields ih entries stored hentries hitems
    obtain ⟨storedItem, storedRest, halternative, hrest, rfl⟩ := List.forall₂_cons_left_iff.1 hitems
    obtain ⟨other, hother, hholds⟩ := halternative.record r hitem
    have hparts := ihfields entries other hentries hholds
    have hbranches := ih entries storedRest hentries hrest
    rw [run_branches_record _ _ hitem, run_branches_record _ _ hother]
    exact outcomes_branches hparts hbranches

/-- Fields that merge from now on leave the outcome of a condition as it was, where nothing is lost when they
are stored as documents. -/
theorem Merging.outcome_eq (hst : s.Merging t) (htype : ∀ r, value.normalize = .ok r → r.type = type)
    (hstored : s.Stores t s.Tolerates (s.entriesFor type) (.struct type) value stored) :
    outcome ((ofValue value).run s.plan) = outcome ((ofValue stored).run t.plan) := by
  rw [hst.run_ofValue_eq]
  cases hvalue : value.normalize with
  | error error =>
    obtain ⟨other, hother⟩ := hstored.alternative.error error hvalue
    exact outcome_eq_of_error (run_ofValue_error _ hvalue) (run_ofValue_error _ hother)
  | ok r =>
    obtain ⟨other, hother, hholds⟩ := hstored.alternative.record r hvalue
    rw [run_ofValue_record _ hvalue, run_ofValue_record _ hother, hholds.type_eq, htype r hvalue]
    cases hplan : s.plan type with
    | error error => rfl
    | ok plan =>
      rw [entriesFor_of_plan hplan] at hholds
      exact outcome_join true (outcomes_parts_branches.1 r plan.entries _ other (fun _ he => he) hholds)

theorem StoredAs.of_merges {name : String} (h : s.Merges t type name) (value : Value)
    (outcome : Except String Json) :
    s.StoredAs t type (name, value) (name, value.ofSerialized outcome) :=
  ⟨rfl, fun _ => ⟨outcome, rfl⟩, fun hkept => absurd h hkept⟩

theorem StoredAs.of_not_merges {field : String × Value} (h : ¬ s.Merges t type field.1) :
    s.StoredAs t type field field :=
  ⟨rfl, fun hmerges => absurd hmerges h, fun _ => rfl⟩

def asking (d : Declaration) : Schema :=
  ⟨[⟨"Asking", [d]⟩, ⟨"Asked", [⟨"a", .int, false, ⟨some "a", none, none⟩⟩]⟩]⟩

theorem asking_merging (hdeclared : d.isDeclared = true) (hupdate : d.updateToken = "") :
    (asking d).Merging (asking d.merging) := by
  constructor
  · rintro (_ | _ | type) <;> rfl
  · rintro (_ | _ | type)
    · exact .cons (.merging hdeclared hupdate) .nil
    · exact .cons (.same _) .nil
    · exact .nil

theorem asking_stores (hupdate : d.updateToken = "") (entries : List Plan.Entry) (value : Value)
    (outcome : Except String Json) :
    (asking d).Stores (asking d.merging) (fun _ _ _ => True) entries (.struct 0)
      (.record 0 [(d.name, value)]) (.record 0 [(d.name, value.ofSerialized outcome)]) := by
  have hne : d.merging ≠ d := by
    intro heq
    rw [← heq] at hupdate
    change UpdateOp.mergeJson.token = "" at hupdate
    exact absurd hupdate (by decide)
  have hmerges : (asking d).Merges (asking d.merging) 0 d.name := ⟨(d, d.merging), .head _, rfl, hne⟩
  refine @Stores.struct _ _ _ _ _ 0 0 [(d.name, value)] [(d.name, value)] _ rfl rfl ?plain ?undeclared
    (fun _ _ _ => trivial) (.cons (.of_merges hmerges value outcome) .nil)
  case plain =>
    intro pair hpair d _ _
    obtain rfl := List.mem_singleton.1 hpair
    exact .same _ _ _
  case undeclared =>
    intro pair hpair _
    obtain rfl := List.mem_singleton.1 hpair
    rfl

/-- Fields that do not bear a document, each with a value: a pattern, a membership test, a test for null
rows, a group and an embedded struct. -/
def unbearing : List (Declaration × Value) :=
  [(⟨"q", .text, false, ⟨some "c", some "like", none⟩⟩, .text "x"),
    (⟨"q", .list .text, false, ⟨some "c", some "in", none⟩⟩, .list [.text "x"]),
    (⟨"q", .list .text, false, ⟨some "c", some "not in", none⟩⟩, .list [.text "x"]),
    (⟨"q", .bool, false, ⟨some "c", some "null", none⟩⟩, .bool true),
    (⟨"q", .struct 1, false, ⟨none, some "or", none⟩⟩, .record 1 [("a", .int 1)]),
    (⟨"q", .struct 1, true, {}⟩, .record 1 [("a", .int 1)])]

theorem unbearing_plans : ∀ field ∈ unbearing,
    ((asking field.1).plan 0).isOk = true ∧ ((asking field.1.merging).plan 0).isOk = true := by
  simp only [unbearing, List.forall_mem_cons]
  refine ⟨?_, ?_, ?_, ?_, ?_, ?_, by simp⟩
  all_goals exact ⟨by cbv, by cbv⟩

/-- The plain value asks for something, and its document for nothing. -/
theorem unbearing_asks : ∀ field ∈ unbearing,
    ((outcome ((ofValue (.record 0 [(field.1.name, field.2)])).run (asking field.1).plan)).bind id).isSome =
        true ∧
      ((outcome ((ofValue (.record 0 [(field.1.name, field.2.ofSerialized (.ok field.2.toJson))])).run
        (asking field.1.merging).plan)).bind id).isSome = false := by
  simp only [unbearing, List.forall_mem_cons]
  refine ⟨?_, ?_, ?_, ?_, ?_, ?_, by simp⟩
  all_goals exact ⟨by cbv, by cbv⟩

theorem unbearing_outcome_ne : ∀ field ∈ unbearing,
    let plain := Value.record 0 [(field.1.name, field.2)]
    let stored := Value.record 0 [(field.1.name, field.2.ofSerialized (.ok field.2.toJson))]
    (asking field.1).Merging (asking field.1.merging) ∧
      (∃ plan, (asking field.1).plan 0 = .ok plan) ∧ (∃ plan, (asking field.1.merging).plan 0 = .ok plan) ∧
      (asking field.1).Stores (asking field.1.merging) (fun _ _ _ => True) ((asking field.1).entriesFor 0)
        (.struct 0) plain stored ∧
      outcome ((ofValue plain).run (asking field.1).plan) ≠
        outcome ((ofValue stored).run (asking field.1.merging).plan) := by
  intro field hfield plain stored
  have hdeclared : field.1.isDeclared = true ∧ field.1.updateToken = "" := by
    revert field
    decide
  have hplan : ∀ {built : Except Error Plan}, built.isOk = true → ∃ plan, built = .ok plan := by
    intro built hok
    cases built with
    | error e => cases hok
    | ok plan => exact ⟨plan, rfl⟩
  obtain ⟨hs, ht⟩ := unbearing_plans field hfield
  obtain ⟨hplain, hstored⟩ := unbearing_asks field hfield
  refine ⟨asking_merging hdeclared.1 hdeclared.2, hplan hs, hplan ht, asking_stores hdeclared.2 _ _ _, ?_⟩
  intro heq
  change ((outcome ((ofValue plain).run _)).bind id).isSome = true at hplain
  rw [heq] at hplain
  exact Bool.noConfusion (hplain.symm.trans hstored)

/-- Whatever a field asks for, it may ask for something else once it merges. -/
theorem not_outcome_eq_of_stores :
    ¬ ∀ (s t : Schema) (value stored : Value) (r : Record), s.Merging t → value.normalize = .ok r →
      (∃ plan, s.plan r.type = .ok plan) → (∃ plan, t.plan r.type = .ok plan) →
      s.Stores t (fun _ _ _ => True) (s.entriesFor r.type) (.struct r.type) value stored →
      outcome ((ofValue value).run s.plan) = outcome ((ofValue stored).run t.plan) := by
  intro h
  let pattern : Declaration := ⟨"q", .text, false, ⟨some "c", some "like", none⟩⟩
  obtain ⟨hst, hs, ht, hstores, hne⟩ := unbearing_outcome_ne (pattern, .text "x") (.head _)
  exact hne (h _ _ _ _ ⟨0, [("q", .text "x")]⟩ hst rfl hs ht hstores)

def settingsField : Declaration := ⟨"settings", .optional (.map .text), false, ⟨some "settings", none, none⟩⟩

def profiles (settings : Declaration) : Schema :=
  ⟨[⟨"Profile", [⟨"id", .int, false, ⟨some "id", some "!=", none⟩⟩, settings,
      ⟨"any", .list (.struct 0), false, ⟨none, some "or", none⟩⟩]⟩]⟩

theorem profiles_merging : (profiles settingsField).Merging (profiles settingsField.merging) := by
  constructor
  · rintro (_ | type) <;> rfl
  · rintro (_ | type)
    · exact .cons (.same _) (.cons (.merging (by decide) (by decide)) (.cons (.same _) .nil))
    · exact .nil

def profileEntries : List Plan.Entry :=
  [⟨"id", ["id"], .column "id", some .ne, none, [("column", "id"), ("query", "!=")]⟩,
    ⟨"settings", ["settings"], .column "settings", none, none, [("column", "settings")]⟩,
    ⟨"any", ["any"], .group 0, some .or, none, [("query", "or")]⟩]

theorem entriesFor_profiles : (profiles settingsField).entriesFor 0 = profileEntries := by
  cbv

theorem inside_profileEntries : (profiles settingsField).inside profileEntries "any" = profileEntries := by
  change [] ++ ((profiles settingsField).entriesFor 0 ++ []) = _
  rw [entriesFor_profiles]
  rfl

theorem profiles_stores (id : Int64) (settings : Value) (document : Except String Json)
    {items stored : Value}
    (h : (profiles settingsField).Stores (profiles settingsField.merging) (profiles settingsField).Tolerates
      profileEntries (.list (.struct 0)) items stored) :
    (profiles settingsField).Stores (profiles settingsField.merging) (profiles settingsField).Tolerates
      profileEntries (.struct 0) (.record 0 [("id", .int id), ("settings", settings), ("any", items)])
      (.record 0 [("id", .int id), ("settings", settings.ofSerialized document), ("any", stored)]) := by
  have hid : ¬ (profiles settingsField).Merges (profiles settingsField.merging) 0 "id" := by decide
  have hany : ¬ (profiles settingsField).Merges (profiles settingsField.merging) 0 "any" := by decide
  have hsettings : (profiles settingsField).Merges (profiles settingsField.merging) 0 "settings" := by
    decide
  refine @Stores.struct _ _ _ _ _ 0 0 _ [("id", .int id), ("settings", settings), ("any", stored)] _ rfl
    rfl ?plain ?undeclared ?allowed (.cons (.of_not_merges hid) (.cons (.of_merges hsettings _ _)
      (.cons (.of_not_merges hany) .nil)))
  case plain =>
    intro pair hpair d hd hname
    simp only [List.zip_cons_cons, List.zip_nil_right, List.mem_cons, List.not_mem_nil, or_false] at hpair
    rcases hpair with rfl | rfl | rfl
    · exact .same _ _ _
    · exact .same _ _ _
    · simp only [profiles, fieldsOf, struct?, List.getElem?_cons_zero, Option.map_some, Option.getD_some,
        List.mem_cons, List.not_mem_nil, or_false] at hd
      change d.name = "any" at hname
      rcases hd with rfl | rfl | rfl
      · exact absurd hname (by decide)
      · exact absurd hname (by decide)
      · rw [inside_profileEntries]
        exact h
  case undeclared =>
    intro pair hpair hnew
    simp only [List.zip_cons_cons, List.zip_nil_right, List.mem_cons, List.not_mem_nil, or_false] at hpair
    rcases hpair with rfl | rfl | rfl
    · rfl
    · rfl
    · have hdeclared : "any" ∈ ((profiles settingsField).fieldsOf 0).map (·.name) := by decide
      exact absurd hdeclared hnew
  case allowed =>
    intro field hfield hmerges
    simp only [List.mem_cons, List.not_mem_nil, or_false] at hfield
    rcases hfield with rfl | rfl | rfl
    · exact absurd hmerges hid
    · refine .inr ⟨fun e he hpath => ?_, fun below hbelow => by cases hbelow⟩
      simp only [profileEntries, List.mem_cons, List.not_mem_nil, or_false] at he
      rcases he with rfl | rfl | rfl
      · exact absurd (List.cons.inj hpath).1 (show "id" ≠ "settings" by decide)
      · exact .comparison rfl rfl
      · exact absurd (List.cons.inj hpath).1 (show "any" ≠ "settings" by decide)
    · exact absurd hmerges hany

def settings : Value := .present (.map [("theme", .text "dark")])

def settingsJson : Json := .object [("theme", .string "dark")]

def profile : Value :=
  .record 0 [("id", .int 1), ("settings", settings),
    ("any", .list [.record 0 [("id", .int 2), ("settings", settings), ("any", .list [])]])]

def storedProfile : Value :=
  .record 0 [("id", .int 1), ("settings", .document (.ok settingsJson)),
    ("any", .list [.record 0 [("id", .int 2), ("settings", .document (.ok settingsJson)),
      ("any", .list [])]])]

theorem profile_stores : (profiles settingsField).Stores (profiles settingsField.merging)
    (profiles settingsField).Tolerates ((profiles settingsField).entriesFor 0) (.struct 0) profile
      storedProfile := by
  rw [entriesFor_profiles]
  have halternative := profiles_stores 2 settings (.ok settingsJson)
    (.same profileEntries (.list (.struct 0)) (.list []))
  refine profiles_stores 1 settings (.ok settingsJson) (.list rfl rfl fun pair hpair => ?_)
  obtain rfl := List.mem_singleton.1 hpair
  exact halternative

theorem type_of_profile (r : Record) (h : profile.normalize = .ok r) : r.type = 0 := by
  obtain rfl := Except.ok.inj h
  rfl

theorem outcome_storedProfile :
    (profiles settingsField).Merging (profiles settingsField.merging) ∧
      (∀ r, profile.normalize = .ok r → r.type = 0) ∧
      (profiles settingsField).Stores (profiles settingsField.merging) (profiles settingsField).Tolerates
        ((profiles settingsField).entriesFor 0) (.struct 0) profile storedProfile ∧
      outcome ((ofValue profile).run (profiles settingsField).plan) =
        outcome ((ofValue storedProfile).run (profiles settingsField.merging).plan) ∧
      outcome ((ofValue storedProfile).run (profiles settingsField.merging).plan) =
        some (some (.all [.compare "id" .ne .null, .compare "settings" .eq .null,
          .any [.compare "id" .ne .null, .compare "settings" .eq .null]])) :=
  ⟨profiles_merging, type_of_profile, profile_stores,
    profiles_merging.outcome_eq type_of_profile profile_stores, by cbv⟩

end Schema

end Criteria
