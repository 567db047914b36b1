import Mathlib
import Criteria.Proofs.KeyedListings
import Criteria.Proofs.MergePatches

set_option autoImplicit false

namespace Criteria

variable {dialect twin : Dialect} {r : Record} {e : Plan.Entry} {column : String} {value : Value}
  {plan : Plan} {err : Error} {m n : Assignments}

theorem UpdateOp.assign_eq_error_iff_of_dialects (op : UpdateOp) (dialect twin : Dialect) :
    op.assign column value dialect = .error err ↔ op.assign column value twin = .error err := by
  cases op with
  | add => exact Iff.rfl
  | sub => exact Iff.rfl
  | mergeJson =>
    rw [assign_mergeJson, assign_mergeJson, map_eq_error, map_eq_error]

namespace Assignments

/-- Assignments of one column by one field under two dialects: the same one, or two merges with the same
parameters if the field declares a merge. -/
inductive Counterparts (dialect twin : Dialect) (e : Plan.Entry) (column : String) :
    Assignment → Assignment → Prop where
  | same {a : Assignment} (h : e.update ≠ some .mergeJson) : Counterparts dialect twin e column a a
  | merges (h : e.update = some .mergeJson) (params : List Value) :
    Counterparts dialect twin e column (.compute ⟨dialect.mergeSql column, params⟩)
      (.compute ⟨twin.mergeSql column, params⟩)

theorem refuses_iff_of_dialects (dialect twin : Dialect) :
    Refuses dialect r e err ↔ Refuses twin r e err := by
  unfold Refuses
  simp only [UpdateOp.assign_eq_error_iff_of_dialects _ dialect twin]

theorem Makes.of_update_ne {a : Assignment} (h : Makes dialect e column value a)
    (hupdate : e.update ≠ some .mergeJson) : Makes twin e column value a := by
  cases h with
  | plain h => exact .plain h
  | @compound op _ h hmade =>
    cases op with
    | add => exact .compound h hmade
    | sub => exact .compound h hmade
    | mergeJson => exact absurd h hupdate

theorem Makes.unique {a b : Assignment} (ha : Makes dialect e column value a)
    (hb : Makes dialect e column value b) : a = b := by
  cases ha with
  | plain h =>
    cases hb with
    | plain => rfl
    | compound h' => cases h.symm.trans h'
  | compound h hmade =>
    cases hb with
    | plain h' => cases h.symm.trans h'
    | compound h' hmade' =>
      obtain rfl := Option.some.inj (h.symm.trans h')
      exact Option.some.inj (Except.ok.inj (hmade.symm.trans hmade'))

theorem Makes.counterparts {a b : Assignment} (ha : Makes dialect e column value a)
    (hb : Makes twin e column value b) : Counterparts dialect twin e column a b := by
  by_cases hmerge : e.update = some .mergeJson
  · rw [ha.eq_merge hmerge, hb.eq_merge hmerge]
    exact .merges hmerge _
  · obtain rfl := (ha.of_update_ne hmerge).unique hb
    exact .same hmerge

theorem ofRecord_eq_error_iff_of_dialects :
    ofRecord dialect r plan = .error err ↔ ofRecord twin r plan = .error err := by
  rw [ofRecord, ofRecord, foldlM_addEntry_eq_error_iff, foldlM_addEntry_eq_error_iff]
  simp only [refuses_iff_of_dialects dialect twin]

theorem keys_eq_of_dialects (hm : ofRecord dialect r plan = .ok m) (hn : ofRecord twin r plan = .ok n) :
    m.toList.map (·.1) = n.toList.map (·.1) :=
  Keyed.keys_eq fun _ => (exists_get?_iff hm).trans (exists_get?_iff hn).symm

/-- The last set field of a column makes its assignment under both dialects. -/
theorem counterparts_of_dialects {a : Assignment} (hm : ofRecord dialect r plan = .ok m)
    (hn : ofRecord twin r plan = .ok n) (ha : m.get? column = some a) :
    ∃ b, n.get? column = some b ∧ ∃ before e after value, plan.entries = before ++ e :: after ∧
      Sets r e column value ∧ (∀ later ∈ after, ∀ other, ¬ Sets r later column other) ∧
      Counterparts dialect twin e column a b := by
  obtain ⟨before, e, after, hentries, ⟨value, hsets⟩, hlater⟩ :=
    exists_last ((exists_get?_iff hm).1 ⟨a, ha⟩)
  have hafter : ∀ later ∈ after, ∀ other, ¬ Sets r later column other :=
    fun later hmem other hother => hlater later hmem ⟨other, hother⟩
  rw [ofRecord, hentries] at hm hn
  obtain ⟨made, hmade, hget⟩ := get?_of_last hm hsets hafter
  obtain ⟨b, hb, hgetb⟩ := get?_of_last hn hsets hafter
  obtain rfl : made = a := Option.some.inj (hget.symm.trans ha)
  exact ⟨b, hgetb, before, e, after, value, hentries, hsets, hafter, hmade.counterparts hb⟩

/-- An update asks for one plan at most, whatever the dialect. -/
theorem runIn_ofValue (s : Schema) (dialect : Dialect) (value : Value) (c : PlanCache) :
    (ofValue dialect value).runIn s c =
      match value.normalize with
      | .ok r =>
        let answer := c.resolve s r.type
        ⟨answer.result.bind (ofRecord dialect r), answer.state, answer.events⟩
      | .error e => ⟨.error e, c, []⟩ := by
  rw [ofValue]
  cases value.normalize with
  | error e => rfl
  | ok r =>
    simp only [Lookup.runIn]
    cases (c.resolve s r.type).result with
    | error e => rfl
    | ok plan =>
      simp only [Except.bind]
      cases ofRecord dialect r plan with
      | error e => simp [Lookup.ofExcept, Lookup.runIn]
      | ok m => simp [Lookup.ofExcept, Lookup.runIn]

theorem runIn_eq_error_iff_of_dialects (s : Schema) (c : PlanCache) :
    ((ofValue dialect value).runIn s c).result = .error err ↔
      ((ofValue twin value).runIn s c).result = .error err := by
  rw [runIn_ofValue, runIn_ofValue]
  cases value.normalize with
  | error e => exact Iff.rfl
  | ok r =>
    cases hplan : (c.resolve s r.type).result with
    | error e => simp only [hplan, Except.bind]
    | ok plan =>
      simp only [hplan, Except.bind]
      exact ofRecord_eq_error_iff_of_dialects

theorem observed_of_dialects (s : Schema) (value : Value) (dialect twin : Dialect) (c : PlanCache) :
    ((ofValue dialect value).runIn s c).state = ((ofValue twin value).runIn s c).state ∧
      ((ofValue dialect value).runIn s c).events = ((ofValue twin value).runIn s c).events := by
  rw [runIn_ofValue, runIn_ofValue]
  cases value.normalize with
  | error e => exact ⟨rfl, rfl⟩
  | ok r => exact ⟨rfl, rfl⟩

/-- Two updates of one snapshot under two dialects, from any cache of any host. They fail together, with one
error, and leave the same cache and events behind. If they succeed, they write the same columns, and the
assignments of a column are the same one unless its last set field merges; then they are the merges of
the two dialects into this column, with the same parameters. -/
theorem dialects_differ_in_merges (s : Schema) (actions : List Action) (id : CacheId) (value : Value)
    (dialect twin : Dialect) :
    let build := fun d => (ofValue d value).runIn s ((Host.after s actions).cache id)
    (∀ err, (build dialect).result = .error err ↔ (build twin).result = .error err) ∧
    (build dialect).state = (build twin).state ∧
    (build dialect).events = (build twin).events ∧
    ∀ m n, (build dialect).result = .ok m → (build twin).result = .ok n →
      m.toList.map (·.1) = n.toList.map (·.1) ∧
      ∃ r plan, value.normalize = .ok r ∧ s.plan r.type = .ok plan ∧
        ∀ column a, m.get? column = some a → ∃ b, n.get? column = some b ∧
          ∃ before e after v, plan.entries = before ++ e :: after ∧ Sets r e column v ∧
            (∀ later ∈ after, ∀ other, ¬ Sets r later column other) ∧
            Counterparts dialect twin e column a b := by
  intro build
  have hsound := Host.sound_cache_after s actions id
  obtain ⟨hstate, hevents⟩ := observed_of_dialects s value dialect twin ((Host.after s actions).cache id)
  refine ⟨fun err => runIn_eq_error_iff_of_dialects s _, hstate, hevents, fun m n hm hn => ?_⟩
  rw [(CacheStep.transparent_runIn _).result _ hsound] at hm hn
  obtain ⟨r, plan, hvalue, hplan, hwalk⟩ := exists_walk_of_run_eq_ok hm
  have htwin : ofRecord twin r plan = .ok n := (run_ofValue_record hvalue hplan).symm.trans hn
  exact ⟨keys_eq_of_dialects hwalk htwin, r, plan, hvalue, hplan,
    fun column a ha => counterparts_of_dialects hwalk htwin ha⟩

/-- The settings of a profile are merged in two ways, from the same parameters. -/
theorem profile_dialects :
    let build := fun d => (ofValue d (.record 0 profile.fields)).runIn profiles
      ((Host.after profiles [.perform (.resolve 0 0)]).cache 0)
    ∃ m n params, (build .mysql).result = .ok m ∧ (build .sqlite).result = .ok n ∧
      m.toList.map (·.1) = n.toList.map (·.1) ∧
      m.get? "settings" = some (.compute ⟨Dialect.mysql.mergeSql "settings", params⟩) ∧
      n.get? "settings" = some (.compute ⟨Dialect.sqlite.mergeSql "settings", params⟩) := by
  intro build
  obtain ⟨-, -, -, hagree⟩ :=
    dialects_differ_in_merges profiles [.perform (.resolve 0 0)] 0 (.record 0 profile.fields) .mysql .sqlite
  have hvalue : (Value.record 0 profile.fields).normalize = .ok profile := rfl
  have hplan : profiles.plan profile.type = .ok profilePlan := by cbv
  have haccepts : ∀ dialect, ∀ e ∈ profilePlan.entries, ∀ err, ¬ Refuses dialect profile e err := by
    intro dialect e he
    obtain rfl := List.mem_singleton.1 he
    exact not_refuses_document rfl
  obtain ⟨m, hm⟩ := exists_result profiles [.perform (.resolve 0 0)] 0 hvalue hplan (haccepts .mysql)
  obtain ⟨n, hn⟩ := exists_result profiles [.perform (.resolve 0 0)] 0 hvalue hplan (haccepts .sqlite)
  obtain ⟨hkeys, r, plan, hr, hp, hcolumns⟩ := hagree m n hm hn
  obtain rfl : profile = r := Except.ok.inj hr
  obtain rfl : profilePlan = plan := Except.ok.inj (hplan.symm.trans hp)
  have hwalk : ofRecord .mysql profile profilePlan = .ok m := by
    rw [← run_ofValue_record hvalue hplan, ← hm]
    exact ((CacheStep.transparent_runIn _).result _
      (Host.sound_cache_after profiles [.perform (.resolve 0 0)] 0)).symm
  obtain ⟨a, ha⟩ := (exists_get?_iff hwalk).2 ⟨_, List.mem_singleton_self _, _, rfl, rfl⟩
  obtain ⟨b, hb, before, e, after, v, hentries, -, -, hpair⟩ := hcolumns "settings" a ha
  have hmerge : e.update = some .mergeJson := by
    have he : e ∈ profilePlan.entries := by rw [hentries]; simp
    rw [List.mem_singleton.1 he]
  cases hpair with
  | same h => exact absurd hmerge h
  | merges _ params => exact ⟨m, n, params, hm, hn, hkeys, ha, hb⟩

end Assignments

end Criteria
