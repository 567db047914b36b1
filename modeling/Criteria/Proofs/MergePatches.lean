import Mathlib
import Criteria.Proofs.AssignmentContent
import Criteria.Proofs.SerializedFields

set_option autoImplicit false

namespace Criteria

def Fragment.merge (dialect : Dialect) (column : String) (document : Json) : Fragment :=
  ⟨dialect.mergeSql column, [.text document.text, .text document.text]⟩

namespace UpdateOp

/-- Everything that binding a merge can do. -/
theorem mergeText_cases (value : Value) :
    (∃ message, value.bare = .document (.error message) ∧
      mergeText value = .error (.serialization message)) ∨
    (∃ type fields, value.bare = .record type fields ∧
      mergeText value = .error (.projection "struct")) ∨
    (∀ message, value.bare ≠ .document (.error message)) ∧
      (∀ type fields, value.bare ≠ .record type fields) ∧
      mergeText value = .ok value.toJson.text := by
  unfold mergeText
  split
  · rename_i outcome hbare
    cases outcome with
    | error message => exact .inl ⟨message, hbare, rfl⟩
    | ok document =>
      have hjson : value.toJson = document := by rw [← value.toJson_bare, hbare, Value.toJson]
      exact .inr (.inr ⟨by simp [hbare], by simp [hbare], by rw [hjson]; rfl⟩)
  · rename_i type fields hbare
    exact .inr (.inl ⟨type, fields, hbare, rfl⟩)
  · rename_i hdocument hrecord
    refine .inr (.inr ⟨fun message h => hdocument _ h, fun type fields h => hrecord type fields h, ?_⟩)
    rw [value.toJson_bare]

theorem assign_mergeJson (column : String) (value : Value) (dialect : Dialect) :
    mergeJson.assign column value dialect = (mergeText value).map fun json =>
      some (.compute ⟨dialect.mergeSql column, [.text json, .text json]⟩) := by
  rw [assign]
  cases hjson : mergeText value with
  | error e => rfl
  | ok json =>
    change (if json.isEmpty then pure none else pure _ : Except Error (Option Assignment)) = _
    rw [isEmpty_of_mergeText hjson]
    rfl

/-- A merge refuses documents that failed to serialize and bare records, and binds the JSON form of
every other value. -/
theorem assign_mergeJson_cases (column : String) (value : Value) (dialect : Dialect) :
    (∃ message, value.bare = .document (.error message) ∧
      mergeJson.assign column value dialect = .error (.serialization message)) ∨
    (∃ type fields, value.bare = .record type fields ∧
      mergeJson.assign column value dialect = .error (.projection "struct")) ∨
    (∀ message, value.bare ≠ .document (.error message)) ∧
      (∀ type fields, value.bare ≠ .record type fields) ∧
      mergeJson.assign column value dialect =
        .ok (some (.compute (.merge dialect column value.toJson))) := by
  rw [assign_mergeJson]
  rcases mergeText_cases value with ⟨message, hbare, h⟩ | ⟨type, fields, hbare, h⟩ |
    ⟨hdocument, hrecord, h⟩
  · exact .inl ⟨message, hbare, by rw [h]; rfl⟩
  · exact .inr (.inl ⟨type, fields, hbare, by rw [h]; rfl⟩)
  · exact .inr (.inr ⟨hdocument, hrecord, by rw [h]; rfl⟩)

theorem assign_mergeJson_eq_serialization_iff {column : String} {value : Value} {dialect : Dialect}
    {message : String} :
    mergeJson.assign column value dialect = .error (.serialization message) ↔
      value.bare = .document (.error message) := by
  rcases assign_mergeJson_cases column value dialect with ⟨other, hbare, h⟩ | ⟨type, fields, hbare, h⟩ |
    ⟨hdocument, -, h⟩
  · rw [h, hbare]
    simp
  · rw [h, hbare]
    simp
  · rw [h]
    simpa using hdocument message

theorem assign_mergeJson_eq_projection_iff {column : String} {value : Value} {dialect : Dialect}
    {kind : String} :
    mergeJson.assign column value dialect = .error (.projection kind) ↔
      kind = "struct" ∧ ∃ type fields, value.bare = .record type fields := by
  rcases assign_mergeJson_cases column value dialect with ⟨other, hbare, h⟩ | ⟨type, fields, hbare, h⟩ |
    ⟨-, hrecord, h⟩
  · rw [h, hbare]
    simp
  · rw [h, hbare]
    simp [eq_comm]
  · rw [h]
    simp [hrecord]

end UpdateOp

namespace Assignments

variable {dialect : Dialect} {r : Record} {e : Plan.Entry} {column : String} {value : Value}
  {last : Assignments}

theorem Makes.eq_merge {a : Assignment} (hmakes : Makes dialect e column value a)
    (hmerge : e.update = some .mergeJson) : a = .compute (.merge dialect column value.toJson) := by
  cases hmakes with
  | plain h => cases h.symm.trans hmerge
  | compound h hmade =>
    obtain rfl := Option.some.inj (h.symm.trans hmerge)
    rcases UpdateOp.assign_mergeJson_cases column value dialect with ⟨_, -, herror⟩ | ⟨_, _, -, herror⟩ |
      ⟨-, -, hok⟩
    · cases herror.symm.trans hmade
    · cases herror.symm.trans hmade
    · exact (Option.some.inj (Except.ok.inj (hok.symm.trans hmade))).symm

/-- Only merges refuse: documents that failed to serialize and bare records. -/
theorem Refuses.of_merge {err : Error} (h : Refuses dialect r e err) :
    e.update = some .mergeJson ∧ ∃ column value, Sets r e column value ∧
      ((∃ message, value.bare = .document (.error message) ∧ err = .serialization message) ∨
        ∃ type fields, value.bare = .record type fields ∧ err = .projection "struct") := by
  obtain ⟨column, value, op, hsets, hop, herr⟩ := h
  cases op with
  | add => cases herr
  | sub => cases herr
  | mergeJson =>
    refine ⟨hop, column, value, hsets, ?_⟩
    rcases UpdateOp.assign_mergeJson_cases column value dialect with ⟨message, hbare, h⟩ |
      ⟨type, fields, hbare, h⟩ | ⟨-, -, h⟩
    · exact .inl ⟨message, hbare, Except.error.inj (herr.symm.trans h)⟩
    · exact .inr ⟨type, fields, hbare, Except.error.inj (herr.symm.trans h)⟩
    · cases herr.symm.trans h

theorem not_refuses_document {document : Json}
    (hgiven : r.given? e.path = some (.document (.ok document))) (err : Error) :
    ¬ Refuses dialect r e err := by
  intro h
  obtain ⟨-, column, value, hsets, hwhy⟩ := h.of_merge
  obtain rfl := Option.some.inj (hgiven.symm.trans hsets.2)
  rcases hwhy with ⟨message, hbare, -⟩ | ⟨type, fields, hbare, -⟩
  · cases hbare
  · cases hbare

theorem exists_result (s : Schema) (actions : List Action) (id : CacheId) {plan : Plan}
    (hvalue : value.normalize = .ok r) (hplan : s.plan r.type = .ok plan)
    (h : ∀ e ∈ plan.entries, ∀ err, ¬ Refuses dialect r e err) :
    ∃ last, ((ofValue dialect value).runIn s ((Host.after s actions).cache id)).result = .ok last := by
  rw [(CacheStep.transparent_runIn _).result _ (Host.sound_cache_after s actions id),
    run_ofValue_record hvalue hplan]
  exact exists_foldlM_addEntry_iff.2 h

/-- A set field that merges is in the update, unless a later set field of its column overwrites it. -/
theorem get?_of_merge {before after : List Plan.Entry}
    (h : (before ++ e :: after).foldlM (addEntry dialect r) Keyed.empty = .ok last)
    (hmerge : e.update = some .mergeJson) (hsets : Sets r e column value) :
    last.get? column = some (.compute (.merge dialect column value.toJson)) ∨
      ∃ later ∈ after, ∃ twin a, Sets r later column twin ∧ Makes dialect later column twin a ∧
        last.get? column = some a := by
  -- the last set field of the column decides, which is this one or a later one
  by_cases hlater : ∃ later ∈ after, ∃ twin, Sets r later column twin
  · obtain ⟨middle, later, rest, rfl, ⟨twin, htwin⟩, hrest⟩ := exists_last hlater
    have hwalk : (before ++ e :: middle) ++ later :: rest = before ++ e :: (middle ++ later :: rest) := by
      simp
    obtain ⟨a, hmakes, ha⟩ := get?_of_last (hwalk ▸ h) htwin fun other hother twin' h' =>
      hrest other hother ⟨twin', h'⟩
    exact .inr ⟨later, by simp, twin, a, htwin, hmakes, ha⟩
  · obtain ⟨a, hmakes, ha⟩ := get?_of_last h hsets fun later hmem twin htwin =>
      hlater ⟨later, hmem, twin, htwin⟩
    exact .inl (by rw [ha, hmakes.eq_merge hmerge])

theorem exists_walk_of_run_eq_ok {s : Schema} (h : (ofValue dialect value).run s.plan = .ok last) :
    ∃ r plan, value.normalize = .ok r ∧ s.plan r.type = .ok plan ∧
      plan.entries.foldlM (addEntry dialect r) Keyed.empty = .ok last := by
  cases hvalue : value.normalize with
  | error e =>
    rw [ofValue, hvalue] at h
    cases h
  | ok r =>
    cases hplan : s.plan r.type with
    | error e =>
      rw [ofValue, hvalue] at h
      simp only [Lookup.run, hplan] at h
      cases h
    | ok plan => exact ⟨r, plan, rfl, hplan, (run_ofValue_record hvalue hplan).symm.trans h⟩

/-- The last set field of a column, if it merges, binds the document that is stored for it. -/
theorem get?_of_stored {before after : List Plan.Entry} {snapshot : Value} {document : Json}
    (h : (before ++ e :: after).foldlM (addEntry dialect r) Keyed.empty = .ok last)
    (hmerge : e.update = some .mergeJson) (htarget : e.target = .column column)
    (hset : snapshot.isEmpty = false)
    (hpath : Record.path? e.path r = some (snapshot.ofSerialized (.ok document)))
    (hafter : ∀ later ∈ after, ∀ twin, ¬ Sets r later column twin) :
    ∃ stored, snapshot.ofSerialized (.ok document) = .document (.ok stored) ∧
      last.get? column = some (.compute (.merge dialect column stored)) := by
  obtain ⟨stored, hstored, hfailed⟩ := Value.exists_stored hset (.ok document)
  have hsets : Sets r e column (.document stored) := by
    refine ⟨htarget, ?_⟩
    rw [Record.given?, hpath, hstored]
    rfl
  obtain ⟨a, hmakes, ha⟩ := get?_of_last h hsets hafter
  cases stored with
  | error message => cases (hfailed message).1 rfl
  | ok stored => exact ⟨stored, hstored, by rw [ha, hmakes.eq_merge hmerge, Value.toJson]⟩

/-- What is stored for a set field that merges, and what an update through any cache of any host binds.
The document of a struct has every member that is not null, unchanged and in order, and no null member if
the struct is under at most one level of presence; under more it has all members. The document of any
other value is what the value serialized to. The text of the stored document is bound. -/
theorem merge_patch_members (s : Schema) (actions : List Action) (id : CacheId) (dialect : Dialect) :
    (∀ (snapshot : Value) (type : TypeId) (fields : List (String × Value))
        (members : List (String × Json)), snapshot.inmost = .record type fields →
      ∃ kept, snapshot.ofSerialized (.ok (.object members)) = .document (.ok (.object kept)) ∧
        kept.Sublist members ∧ (∀ member ∈ members, member.2 ≠ .null → member ∈ kept) ∧
        (snapshot.presence ≤ 1 → ∀ member ∈ kept, member.2 ≠ .null) ∧
        (1 < snapshot.presence → kept = members)) ∧
    (∀ (snapshot : Value) (outcome : Except String Json), snapshot.isEmpty = false →
      (∀ type fields, snapshot.inmost ≠ .record type fields) →
      snapshot.ofSerialized outcome = .document outcome) ∧
    ∀ value last,
      ((ofValue dialect value).runIn s ((Host.after s actions).cache id)).result = .ok last →
      ∃ r plan, value.normalize = .ok r ∧ s.plan r.type = .ok plan ∧
        ∀ (before after : List Plan.Entry) (e : Plan.Entry) (column : String) (snapshot : Value)
            (document : Json), plan.entries = before ++ e :: after →
          e.update = some .mergeJson → e.target = .column column → snapshot.isEmpty = false →
          Record.path? e.path r = some (snapshot.ofSerialized (.ok document)) →
          (∀ later ∈ after, ∀ twin, ¬ Sets r later column twin) →
          ∃ stored, snapshot.ofSerialized (.ok document) = .document (.ok stored) ∧
            last.get? column = some (.compute (.merge dialect column stored)) := by
  refine ⟨fun snapshot type fields members hinmost => Value.exists_kept hinmost members,
    fun snapshot outcome hset hinmost => ?_, fun value last hlast => ?_⟩
  · exact Value.ofSerialized_of_ne_record hset
      (fun type fields h => hinmost type fields (Value.bare_eq_record_iff.1 h).1) outcome
  · rw [(CacheStep.transparent_runIn _).result _ (Host.sound_cache_after s actions id)] at hlast
    obtain ⟨r, plan, hvalue, hplan, hwalk⟩ := exists_walk_of_run_eq_ok hlast
    refine ⟨r, plan, hvalue, hplan, ?_⟩
    intro before after e column snapshot document hentries hmerge htarget hset hpath hafter
    exact get?_of_stored (hentries ▸ hwalk) hmerge htarget hset hpath hafter

/-- Under two levels of presence the stored document of a struct can have a null member. -/
theorem null_member_stored :
    ¬ ∀ (snapshot : Value) (type : TypeId) (fields : List (String × Value))
        (members : List (String × Json)), snapshot.inmost = .record type fields →
      ∃ kept, snapshot.ofSerialized (.ok (.object members)) = .document (.ok (.object kept)) ∧
        ∀ member ∈ kept, member.2 ≠ .null := by
  intro h
  obtain ⟨kept, hkept, hnull⟩ :=
    h (.present (.present (.record 0 []))) 0 [] [("a", .null), ("b", .string "x")] rfl
  obtain rfl : _ = kept := Json.object.inj (Except.ok.inj (Value.document.inj hkept))
  exact hnull ("a", .null) List.mem_cons_self rfl

def profiles : Schema :=
  ⟨[⟨"Profile", [⟨"settings", .optional (.struct 1), false,
      ⟨some "settings", none, some "merge_json"⟩⟩]⟩,
    ⟨"Settings", [⟨"theme", .optional .text, false, ⟨some "theme", none, none⟩⟩]⟩]⟩

def profilePlan : Plan :=
  ⟨0, [⟨"settings", ["settings"], .column "settings", none, some .mergeJson,
    [("column", "settings"), ("update", "merge_json")]⟩]⟩

def settings : Value := .record 1 [("theme", .null)]

/-- What settings without a theme serialize to; the null below `layout` is not a member. -/
def settingsMembers : List (String × Json) :=
  [("layout", .object [("width", .null)]), ("theme", .null)]

def profile : Record :=
  ⟨0, [("settings", (Value.present settings).ofSerialized (.ok (.object settingsMembers)))]⟩

/-- The patch leaves a stored theme alone, and has the null below `layout`. -/
theorem profile_patch :
    profiles.plan 0 = .ok profilePlan ∧ ∃ last,
      ((ofValue .mysql (.record 0 profile.fields)).runIn profiles
        ((Host.after profiles [.perform (.resolve 0 0)]).cache 0)).result = .ok last ∧
      last.get? "settings" =
        some (.compute (.merge .mysql "settings" (.object [("layout", .object [("width", .null)])]))) ∧
      (∀ member ∈ [("layout", Json.object [("width", .null)])], member.2 ≠ .null) ∧
      (Value.map [("theme", .null)]).ofSerialized (.ok (.object settingsMembers)) =
        .document (.ok (.object settingsMembers)) := by
  obtain ⟨hmembers, hother, hbound⟩ := merge_patch_members profiles [.perform (.resolve 0 0)] 0 .mysql
  have hplan : profiles.plan 0 = .ok profilePlan := by cbv
  have hvalue : (Value.record 0 profile.fields).normalize = .ok profile := rfl
  have haccepts : ∀ e ∈ profilePlan.entries, ∀ err, ¬ Refuses .mysql profile e err := by
    intro e he
    obtain rfl := List.mem_singleton.1 he
    exact not_refuses_document rfl
  obtain ⟨last, hlast⟩ := exists_result profiles [.perform (.resolve 0 0)] 0 hvalue hplan haccepts
  obtain ⟨r, plan, hvalue', hplan', hfields⟩ := hbound _ last hlast
  obtain rfl := Except.ok.inj hvalue'
  obtain rfl := Except.ok.inj (hplan.symm.trans hplan')
  obtain ⟨stored, hstored, hget⟩ := hfields [] [] _ "settings" (.present settings)
    (.object settingsMembers) rfl rfl rfl rfl rfl (by simp)
  obtain ⟨kept, hkept, -, -, hnull, -⟩ :=
    hmembers (.present settings) 1 [("theme", .null)] settingsMembers rfl
  obtain rfl := Except.ok.inj (Value.document.inj (hstored.symm.trans hkept))
  obtain rfl : _ = kept := Json.object.inj (Except.ok.inj (Value.document.inj hkept))
  exact ⟨hplan, last, hlast, hget, hnull (Nat.le_refl 1), hother _ _ rfl (by simp [Value.inmost])⟩

end Assignments

end Criteria
