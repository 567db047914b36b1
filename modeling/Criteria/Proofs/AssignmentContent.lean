import Mathlib
import Criteria.Proofs.Address
import Criteria.Proofs.CacheTransparency

set_option autoImplicit false

namespace Criteria

namespace Decimal

theorem plainText_ne_empty (d : Digits) : plainText d true ≠ "" := by
  unfold plainText
  simp only [↓reduceIte]
  split
  · simp
  · split <;> simp

theorem scientificText_ne_empty (d : Digits) : scientificText d ≠ "" := by
  simp [scientificText]

variable {l : Layout}

theorem Layout.write_ne_empty (h : l.wholePoint = true) (d : Digits) : l.write d ≠ "" := by
  unfold write
  rw [h]
  split
  · exact plainText_ne_empty d
  · dsimp only
    split
    · exact plainText_ne_empty d
    · exact scientificText_ne_empty d

theorem Layout.writeBits_ne_empty (h : l.wholePoint = true) (bits : Nat) :
    l.writeBits bits ≠ "" := by
  unfold writeBits
  rw [ne_eq, String.append_eq_empty_iff, not_and, h]
  intro _
  split
  · simp
  · exact write_ne_empty h _

end Decimal

theorem Json.chars_ne_nil (j : Json) : j.chars ≠ [] := by
  cases j with
  | null => simp [chars]
  | bool b => cases b <;> simp [chars]
  | whole n =>
    obtain ⟨val, -, -⟩ := n
    cases val with
    | ofNat m => exact mt String.toList_eq_nil_iff.1 Nat.repr_ne_empty
    | negSucc m => exact mt String.toList_eq_nil_iff.1 (by simp [Int.repr])
  | float x => exact mt String.toList_eq_nil_iff.1 (Decimal.Layout.writeBits_ne_empty rfl _)
  | string s => simp [chars, quoteChars]
  | array items => simp [chars]
  | object members => simp [chars]

theorem Json.isEmpty_text (j : Json) : j.text.isEmpty = false := by
  simp [text, j.chars_ne_nil]

theorem UpdateOp.isEmpty_of_mergeText {value : Value} {json : String}
    (h : mergeText value = .ok json) : json.isEmpty = false := by
  unfold mergeText at h
  split at h
  · obtain ⟨document, -, rfl⟩ := map_eq_ok.1 h
    exact document.isEmpty_text
  · cases h
  · obtain rfl := Except.ok.inj h
    exact Json.isEmpty_text _

/-- Since no document has an empty text, an operator never leaves its column out. -/
theorem UpdateOp.assign_ne_none (op : UpdateOp) (column : String) (value : Value)
    (dialect : Dialect) : op.assign column value dialect ≠ .ok none := by
  cases op with
  | add => simp [assign]
  | sub => simp [assign]
  | mergeJson =>
    intro h
    obtain ⟨json, hjson, hmade⟩ := bind_eq_ok.1 h
    rw [isEmpty_of_mergeText hjson] at hmade
    cases hmade

/-- A fragment has a placeholder for each of its parameters. -/
theorem UpdateOp.count_assign {op : UpdateOp} {column : String} {value : Value} {dialect : Dialect}
    {f : Fragment} (h : op.assign column value dialect = .ok (some (.compute f)))
    (hcolumn : '?' ∉ column.toList) : f.sql.toList.count '?' = f.params.length := by
  have hnone : column.toList.count '?' = 0 := List.count_eq_zero.2 hcolumn
  cases op with
  | add =>
    obtain rfl : ⟨column ++ " + ?", [value]⟩ = f := by simpa [assign] using h
    simp [hnone]
  | sub =>
    obtain rfl : ⟨column ++ " - ?", [value]⟩ = f := by simpa [assign] using h
    simp [hnone]
  | mergeJson =>
    obtain ⟨json, hjson, hmade⟩ := bind_eq_ok.1 h
    rw [isEmpty_of_mergeText hjson] at hmade
    obtain rfl : ⟨dialect.mergeSql column, [.text json, .text json]⟩ = f := by
      simpa [pure, Except.pure] using hmade
    simp [Dialect.count_mergeSql, hnone]

theorem exists_last {α : Type} {P : α → Prop} {xs : List α} (h : ∃ x ∈ xs, P x) :
    ∃ before x after, xs = before ++ x :: after ∧ P x ∧ ∀ later ∈ after, ¬ P later := by
  induction xs with
  | nil => simp at h
  | cons first rest ih =>
    by_cases hrest : ∃ x ∈ rest, P x
    · obtain ⟨before, x, after, rfl, hx, hafter⟩ := ih hrest
      exact ⟨first :: before, x, after, rfl, hx, hafter⟩
    · obtain ⟨x, hmem, hx⟩ := h
      -- No later one has the property, so it is the first of the list.
      rcases List.mem_cons.1 hmem with rfl | hmem
      · exact ⟨[], x, rest, rfl, hx, fun later hlater hP => hrest ⟨later, hlater, hP⟩⟩
      · exact absurd ⟨x, hmem, hx⟩ hrest

namespace Assignments

/-- A field of a column is set in a record, to a value that has lost one level of presence. -/
def Sets (r : Record) (e : Plan.Entry) (column : String) (value : Value) : Prop :=
  e.target = .column column ∧ r.given? e.path = some value

/-- What a set field assigns: the value itself, or what the operator of the field makes of it. -/
inductive Makes (dialect : Dialect) (e : Plan.Entry) (column : String) (value : Value) :
    Assignment → Prop where
  | plain (h : e.update = none) : Makes dialect e column value (.set value)
  | compound {op : UpdateOp} {a : Assignment} (h : e.update = some op)
      (hmade : op.assign column value dialect = .ok (some a)) : Makes dialect e column value a

def Refuses (dialect : Dialect) (r : Record) (e : Plan.Entry) (err : Error) : Prop :=
  ∃ column value op, Sets r e column value ∧ e.update = some op ∧
    op.assign column value dialect = .error err

def contributes (r : Record) (e : Plan.Entry) : Bool :=
  e.column?.isSome && (r.given? e.path).isSome

variable {dialect : Dialect} {r : Record} {e : Plan.Entry} {entries : List Plan.Entry}
  {done last : Assignments} {column : String} {value : Value}

theorem contributes_iff : contributes r e = true ↔ ∃ column value, Sets r e column value := by
  unfold contributes Sets Plan.Entry.column?
  cases e.target <;> simp [Option.isSome_iff_exists]

theorem assignment_cases (dialect : Dialect) (e : Plan.Entry) (column : String) (value : Value) :
    (∃ a, assignment dialect e column value = .ok (some a) ∧ Makes dialect e column value a) ∨
    ∃ op err, assignment dialect e column value = .error err ∧ e.update = some op ∧
      op.assign column value dialect = .error err := by
  unfold assignment
  cases hupdate : e.update with
  | none => exact .inl ⟨_, rfl, .plain hupdate⟩
  | some op =>
    dsimp only
    cases hmade : op.assign column value dialect with
    | error err => exact .inr ⟨op, err, rfl, rfl, hmade⟩
    | ok made =>
      cases made with
      | none => exact absurd hmade (op.assign_ne_none column value dialect)
      | some a => exact .inl ⟨a, rfl, .compound hupdate hmade⟩

/-- Everything that one field can do to the assignments made so far. -/
theorem addEntry_cases (dialect : Dialect) (r : Record) (done : Assignments) (e : Plan.Entry) :
    ((∀ column value, ¬ Sets r e column value) ∧ addEntry dialect r done e = .ok done) ∨
    (∃ column value a, Sets r e column value ∧ Makes dialect e column value a ∧
      addEntry dialect r done e = .ok (done.insert column a)) ∨
    ∃ err, Refuses dialect r e err ∧ addEntry dialect r done e = .error err := by
  unfold addEntry
  split
  · rename_i column value htarget hgiven
    rcases assignment_cases dialect e column value with ⟨a, ha, hmakes⟩ | ⟨op, err, ha, hop, herr⟩
    · exact .inr (.inl ⟨column, value, a, ⟨htarget, hgiven⟩, hmakes, by rw [ha]; rfl⟩)
    · refine .inr (.inr ⟨err, ⟨column, value, op, ⟨htarget, hgiven⟩, hop, herr⟩, ?_⟩)
      rw [ha]
      rfl
  · rename_i hnone
    exact .inl ⟨fun column value hsets => hnone column value hsets.1 hsets.2, rfl⟩

theorem Sets.unique {other : String} {twin : Value} (h : Sets r e column value)
    (htwin : Sets r e other twin) : other = column ∧ twin = value :=
  ⟨Target.column.inj (htwin.1.symm.trans h.1), Option.some.inj (htwin.2.symm.trans h.2)⟩

theorem addEntry_of_unset (h : ∀ column value, ¬ Sets r e column value) :
    addEntry dialect r done e = .ok done := by
  rcases addEntry_cases dialect r done e with ⟨-, hadd⟩ | ⟨column, value, -, hsets, -⟩ |
    ⟨err, ⟨column, value, -, hsets, -⟩, -⟩
  · exact hadd
  · exact absurd hsets (h column value)
  · exact absurd hsets (h column value)

theorem addEntry_eq_error_iff {err : Error} :
    addEntry dialect r done e = .error err ↔ Refuses dialect r e err := by
  constructor
  · intro hadd
    rcases addEntry_cases dialect r done e with ⟨-, h⟩ | ⟨_, _, _, -, -, h⟩ | ⟨other, hrefuses, h⟩
    · simp [h] at hadd
    · simp [h] at hadd
    · obtain rfl := Except.error.inj (h.symm.trans hadd)
      exact hrefuses
  · rintro ⟨column, value, op, hsets, hop, herr⟩
    unfold addEntry assignment
    rw [hsets.1, hsets.2, hop]
    dsimp only
    rw [herr]
    rfl

/-- Adding a field to the assignments is writing its column or nothing. -/
theorem get?_of_addEntry (h : addEntry dialect r done e = .ok last) (column : String) :
    (∃ value a, Sets r e column value ∧ Makes dialect e column value a ∧
      last.get? column = some a) ∨
    (∀ value, ¬ Sets r e column value) ∧ last.get? column = done.get? column := by
  rcases addEntry_cases dialect r done e with ⟨hunset, hadd⟩ | ⟨own, value, a, hsets, hmakes, hadd⟩ |
    ⟨err, -, hadd⟩
  · obtain rfl := Except.ok.inj (hadd.symm.trans h)
    exact .inr ⟨hunset column, rfl⟩
  · obtain rfl := Except.ok.inj (hadd.symm.trans h)
    by_cases hcolumn : own = column
    · subst hcolumn
      exact .inl ⟨value, a, hsets, hmakes, by simp⟩
    · refine .inr ⟨fun twin htwin => hcolumn (hsets.unique htwin).1.symm, ?_⟩
      rw [Keyed.get?_insert, if_neg hcolumn]
  · cases hadd.symm.trans h

theorem get?_of_unset (h : entries.foldlM (addEntry dialect r) done = .ok last)
    (hunset : ∀ e ∈ entries, ∀ value, ¬ Sets r e column value) :
    last.get? column = done.get? column := by
  induction entries generalizing done with
  | nil =>
    obtain rfl := Except.ok.inj h
    rfl
  | cons e rest ih =>
    obtain ⟨hhead, hrest⟩ := List.forall_mem_cons.1 hunset
    rw [List.foldlM_cons] at h
    obtain ⟨next, hnext, hlast⟩ := bind_eq_ok.1 h
    rw [ih hlast hrest]
    rcases get?_of_addEntry hnext column with ⟨value, -, hsets, -⟩ | ⟨-, hsame⟩
    · exact absurd hsets (hhead value)
    · exact hsame

theorem get?_of_last {before after : List Plan.Entry}
    (h : (before ++ e :: after).foldlM (addEntry dialect r) done = .ok last)
    (hsets : Sets r e column value)
    (hafter : ∀ later ∈ after, ∀ value, ¬ Sets r later column value) :
    ∃ a, Makes dialect e column value a ∧ last.get? column = some a := by
  rw [List.foldlM_append] at h
  obtain ⟨middle, -, h⟩ := bind_eq_ok.1 h
  rw [List.foldlM_cons] at h
  obtain ⟨next, hnext, hlast⟩ := bind_eq_ok.1 h
  rcases get?_of_addEntry hnext column with ⟨twin, a, htwin, hmakes, hget⟩ | ⟨hunset, -⟩
  · obtain rfl := (hsets.unique htwin).2
    exact ⟨a, hmakes, (get?_of_unset hlast hafter).trans hget⟩
  · exact absurd hsets (hunset value)

theorem exists_get?_iff (h : entries.foldlM (addEntry dialect r) Keyed.empty = .ok last) :
    (∃ a, last.get? column = some a) ↔ ∃ e ∈ entries, ∃ value, Sets r e column value := by
  constructor
  · rintro ⟨a, ha⟩
    by_contra hunset
    have hnone : last.get? column = none :=
      get?_of_unset h fun e he value hsets => hunset ⟨e, he, value, hsets⟩
    cases ha.symm.trans hnone
  · intro hset
    obtain ⟨before, e, after, rfl, ⟨value, hsets⟩, hafter⟩ := exists_last hset
    obtain ⟨a, -, ha⟩ := get?_of_last h hsets fun later hlater twin htwin =>
      hafter later hlater ⟨twin, htwin⟩
    exact ⟨a, ha⟩

/-- Every fragment of an update has a placeholder for each of its parameters. -/
theorem count_ofRecord {plan : Plan} (h : ofRecord dialect r plan = .ok last) {f : Fragment}
    (hcolumn : '?' ∉ column.toList) (hf : last.get? column = some (.compute f)) :
    f.sql.toList.count '?' = f.params.length := by
  obtain ⟨before, e, after, hentries, ⟨value, hsets⟩, hafter⟩ :=
    exists_last ((exists_get?_iff h).1 ⟨_, hf⟩)
  rw [ofRecord, hentries] at h
  obtain ⟨a, hmakes, ha⟩ := get?_of_last h hsets fun later hlater twin htwin =>
    hafter later hlater ⟨twin, htwin⟩
  obtain rfl := Option.some.inj (ha.symm.trans hf)
  cases hmakes with
  | compound _ hmade => exact UpdateOp.count_assign hmade hcolumn

theorem foldlM_addEntry_eq_error_iff {err : Error} :
    entries.foldlM (addEntry dialect r) done = .error err ↔
      ∃ before e after, entries = before ++ e :: after ∧ Refuses dialect r e err ∧
        ∀ earlier ∈ before, ∀ other, ¬ Refuses dialect r earlier other := by
  induction entries generalizing done with
  | nil => simp [pure, Except.pure]
  | cons first rest ih =>
    rw [List.foldlM_cons]
    change (addEntry dialect r done first).bind _ = .error err ↔ _
    cases hadd : addEntry dialect r done first with
    | error other =>
      have hrefuses := addEntry_eq_error_iff.1 hadd
      simp only [Except.bind, Except.error.injEq]
      constructor
      · rintro rfl
        exact ⟨[], first, rest, rfl, hrefuses, by simp⟩
      · rintro ⟨before, e, after, heq, he, hbefore⟩
        cases before with
        | nil =>
          obtain ⟨rfl, -⟩ := List.cons.inj heq
          exact Except.error.inj (hadd.symm.trans (addEntry_eq_error_iff.2 he))
        | cons b before =>
          obtain ⟨rfl, -⟩ := List.cons.inj heq
          exact absurd hrefuses (hbefore first List.mem_cons_self other)
    | ok next =>
      have hnone : ∀ other, ¬ Refuses dialect r first other := by
        intro other hother
        cases hadd.symm.trans (addEntry_eq_error_iff.2 hother)
      simp only [Except.bind]
      rw [ih]
      constructor
      · rintro ⟨before, e, after, rfl, he, hbefore⟩
        exact ⟨first :: before, e, after, rfl, he, List.forall_mem_cons.2 ⟨hnone, hbefore⟩⟩
      · rintro ⟨before, e, after, heq, he, hbefore⟩
        cases before with
        | nil =>
          obtain ⟨rfl, -⟩ := List.cons.inj heq
          exact absurd he (hnone err)
        | cons b before =>
          obtain ⟨rfl, rfl⟩ := List.cons.inj heq
          exact ⟨before, e, after, rfl, he, (List.forall_mem_cons.1 hbefore).2⟩

theorem exists_foldlM_addEntry_iff :
    (∃ last, entries.foldlM (addEntry dialect r) done = .ok last) ↔
      ∀ e ∈ entries, ∀ err, ¬ Refuses dialect r e err := by
  induction entries generalizing done with
  | nil => simp [pure, Except.pure]
  | cons first rest ih =>
    rw [List.foldlM_cons, List.forall_mem_cons]
    change (∃ last, (addEntry dialect r done first).bind _ = .ok last) ↔ _
    cases hadd : addEntry dialect r done first with
    | error err => simpa [Except.bind] using fun h => absurd (addEntry_eq_error_iff.1 hadd) (h err)
    | ok next =>
      have hnone : ∀ err, ¬ Refuses dialect r first err := by
        intro err herr
        cases hadd.symm.trans (addEntry_eq_error_iff.2 herr)
      exact ih.trans ⟨fun hrest => ⟨hnone, hrest⟩, fun hboth => hboth.2⟩

theorem foldlM_filter_contributes (entries : List Plan.Entry) (done : Assignments) :
    (entries.filter (contributes r)).foldlM (addEntry dialect r) done =
      entries.foldlM (addEntry dialect r) done := by
  induction entries generalizing done with
  | nil => rfl
  | cons e rest ih =>
    by_cases h : contributes r e = true
    · rw [List.filter_cons_of_pos h, List.foldlM_cons, List.foldlM_cons]
      exact bind_congr fun next => ih next
    · have hunset : ∀ column value, ¬ Sets r e column value :=
        fun column value hsets => h (contributes_iff.2 ⟨column, value, hsets⟩)
      rw [List.filter_cons_of_neg h, List.foldlM_cons, addEntry_of_unset hunset, ih]
      rfl

theorem run_ofValue_record {s : Schema} {plan : Plan} (hvalue : value.normalize = .ok r)
    (hplan : s.plan r.type = .ok plan) :
    (ofValue dialect value).run s.plan = ofRecord dialect r plan := by
  rw [ofValue, hvalue]
  simp only [Lookup.run, hplan]
  cases ofRecord dialect r plan <;> rfl

/-- The outcome of an update through any cache of any host, once the type of its record is planned. It
fails with the first field that refuses its value, and otherwise has the columns of the set fields,
each as the last set field of the column makes it. Of the plan only those fields matter. -/
theorem ofValue_content (s : Schema) (actions : List Action) (id : CacheId) (dialect : Dialect)
    {value : Value} {r : Record} {plan : Plan} (hvalue : value.normalize = .ok r)
    (hplan : s.plan r.type = .ok plan) :
    let result := ((ofValue dialect value).runIn s ((Host.after s actions).cache id)).result
    (∀ err, result = .error err ↔ ∃ before e after, plan.entries = before ++ e :: after ∧
      Refuses dialect r e err ∧ ∀ earlier ∈ before, ∀ other, ¬ Refuses dialect r earlier other) ∧
    ((∃ last, result = .ok last) ↔ ∀ e ∈ plan.entries, ∀ err, ¬ Refuses dialect r e err) ∧
    (∀ last, result = .ok last →
      (∀ column, (∃ a, last.get? column = some a) ↔
        ∃ e ∈ plan.entries, ∃ value, Sets r e column value) ∧
      ∀ before e after column value, plan.entries = before ++ e :: after →
        Sets r e column value → (∀ later ∈ after, ∀ twin, ¬ Sets r later column twin) →
        ∃ a, Makes dialect e column value a ∧ last.get? column = some a) ∧
    result = ofRecord dialect r ⟨plan.type, plan.entries.filter (contributes r)⟩ := by
  intro result
  have hresult : result = plan.entries.foldlM (addEntry dialect r) Keyed.empty := by
    have hrun := (CacheStep.transparent_runIn (ofValue dialect value)).result _
      (Host.sound_cache_after s actions id)
    exact hrun.trans (run_ofValue_record hvalue hplan)
  refine ⟨fun err => ?_, ?_, fun last hlast => ⟨fun column => ?_, ?_⟩, ?_⟩
  · rw [hresult]
    exact foldlM_addEntry_eq_error_iff
  · rw [hresult]
    exact exists_foldlM_addEntry_iff
  · rw [hresult] at hlast
    exact exists_get?_iff hlast
  · intro before e after column value heq hsets hafter
    rw [hresult] at hlast
    exact get?_of_last (heq ▸ hlast) hsets hafter
  · rw [hresult]
    exact (foldlM_filter_contributes plan.entries Keyed.empty).symm

def amountField (name : String) (update : Option String) : Declaration :=
  { name := name, shape := .optional .int,
    annotations := { column := some "amount", update := update } }

def postings : Schema :=
  ⟨[⟨"Posting", [amountField "credit" (some "+"),
      { name := "withdrawal", shape := .optional (.struct 1), embedded := true },
      amountField "balance" none]⟩,
    ⟨"Withdrawal", [amountField "debit" (some "-"),
      { name := "note", shape := .text, annotations := { column := some "note" } }]⟩]⟩

def postingPlan : Plan :=
  ⟨0, [(amountField "credit" (some "+")).entry ["credit"] (.column "amount"),
    (amountField "debit" (some "-")).entry ["withdrawal", "debit"] (.column "amount"),
    ⟨"note", ["withdrawal", "note"], .column "note", none, none, [("column", "note")]⟩,
    (amountField "balance" none).entry ["balance"] (.column "amount")]⟩

def posting : Record :=
  ⟨0, [("credit", .present (.int 1)),
    ("withdrawal", .present (.record 1 [("debit", .present (.int 5)), ("note", .text "")])),
    ("balance", .null)]⟩

/-- The debit replaces the credit, and the balance, which is unset, does not replace the debit. -/
theorem posting_content :
    postings.plan posting.type = .ok postingPlan ∧
      ∃ last, ((ofValue .mysql (.record posting.type posting.fields)).runIn postings
          ((Host.after postings [.perform (.resolve 0 1)]).cache 0)).result = .ok last ∧
        last.get? "amount" = some (.compute ⟨"amount - ?", [.int 5]⟩) ∧ last.get? "note" = none := by
  have hplan : postings.plan posting.type = .ok postingPlan := by cbv
  have hvalue : (Value.record posting.type posting.fields).normalize = .ok posting := rfl
  obtain ⟨-, hok, hcontent, -⟩ :=
    ofValue_content postings [.perform (.resolve 0 1)] 0 .mysql hvalue hplan
  have hoperators : ∀ e ∈ postingPlan.entries, e.update ≠ some .mergeJson := by decide
  have haccepts : ∀ e ∈ postingPlan.entries, ∀ err, ¬ Refuses .mysql posting e err := by
    rintro e he err ⟨_, _, op, _, hop, herr⟩
    cases op with
    | mergeJson => exact hoperators e he hop
    | _ => cases herr
  obtain ⟨last, hlast⟩ := hok.2 haccepts
  obtain ⟨hcolumns, hlastSet⟩ := hcontent last hlast
  refine ⟨hplan, last, hlast, ?_, ?_⟩
  · obtain ⟨a, hmakes, ha⟩ := hlastSet [_] _ [_, _] "amount" (.int 5) rfl ⟨rfl, rfl⟩ (by
      rintro later hlater twin ⟨htarget, hgiven⟩
      simp only [List.mem_cons, List.not_mem_nil, or_false] at hlater
      rcases hlater with rfl | rfl
      · exact absurd (Target.column.inj htarget) (by decide)
      · cases hgiven)
    cases hmakes with
    | plain h => cases h
    | compound h hmade =>
      cases h
      cases hmade
      exact ha
  · rw [Option.eq_none_iff_forall_ne_some]
    intro a ha
    obtain ⟨e, he, value, htarget, hgiven⟩ := (hcolumns "note").1 ⟨a, ha⟩
    simp only [postingPlan, List.mem_cons, List.not_mem_nil, or_false] at he
    rcases he with rfl | rfl | rfl | rfl
    · exact absurd (Target.column.inj htarget) (by decide)
    · exact absurd (Target.column.inj htarget) (by decide)
    · cases hgiven
    · exact absurd (Target.column.inj htarget) (by decide)

end Assignments

end Criteria
