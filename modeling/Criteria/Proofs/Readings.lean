import Mathlib.Data.List.Forall2
import Criteria.Assignment.OfRecord
import Criteria.Proofs.ConditionRun

set_option autoImplicit false

namespace Criteria

theorem Keyed.lookup_append {α : Type} (key : String) (entries rest : List (String × α)) :
    lookup key (entries ++ rest) = (lookup key entries).or (lookup key rest) := by
  induction entries with
  | nil => rfl
  | cons entry entries ih =>
    obtain ⟨k, v⟩ := entry
    rw [List.cons_append, lookup, lookup]
    split
    · rfl
    · exact ih

theorem Keyed.lookup_isSome_iff {α : Type} {key : String} {entries : List (String × α)} :
    (lookup key entries).isSome = true ↔ key ∈ entries.map (·.1) := by
  induction entries with
  | nil => simp [lookup]
  | cons entry entries ih =>
    obtain ⟨k, v⟩ := entry
    rw [lookup, List.map_cons, List.mem_cons, ← ih]
    by_cases hkey : k = key
    · simp [hkey]
    · simp [hkey, Ne.symm hkey]

theorem Keyed.lookup_eq_none {α : Type} {key : String} {entries : List (String × α)}
    (h : key ∉ entries.map (·.1)) : lookup key entries = none := by
  rw [← lookup_isSome_iff] at h
  exact Option.not_isSome_iff_eq_none.1 h

theorem Keyed.lookup_middle {α : Type} {key : String} {before : List (String × α)}
    (h : key ∉ before.map (·.1)) (a : α) (after : List (String × α)) :
    lookup key (before ++ (key, a) :: after) = some a := by
  rw [lookup_append, lookup_eq_none h, lookup, if_pos rfl, Option.none_or]

theorem Keyed.lookup_middle_of_ne {α : Type} {key other : String} (h : other ≠ key)
    (before : List (String × α)) (a : α) (after : List (String × α)) :
    lookup key (before ++ (other, a) :: after) = lookup key (before ++ after) := by
  rw [lookup_append, lookup_append, lookup, if_neg h]

theorem Keyed.lookup_eq_some_iff {α : Type} {key : String} {a : α} {entries : List (String × α)}
    (h : (entries.map (·.1)).Nodup) : lookup key entries = some a ↔ (key, a) ∈ entries := by
  induction entries with
  | nil => simp [lookup]
  | cons entry entries ih =>
    obtain ⟨k, b⟩ := entry
    obtain ⟨hnew, hrest⟩ := List.nodup_cons.1 h
    rw [lookup, List.mem_cons]
    by_cases hkey : k = key
    · subst hkey
      have hother : (k, a) ∉ entries := fun hmem =>
        hnew (List.mem_map.2 ⟨(k, a), hmem, rfl⟩)
      rw [if_pos rfl]
      simp [hother, eq_comm]
    · have hne : (key, a) ≠ (k, b) := fun heq => hkey (Prod.mk.inj heq).1.symm
      rw [if_neg hkey, ih hrest]
      simp [hne]

theorem Keyed.lookup_perm {α : Type} {entries moved : List (String × α)} (key : String)
    (hnames : (entries.map (·.1)).Nodup) (h : entries.Perm moved) :
    lookup key entries = lookup key moved := by
  have hmoved : (moved.map (·.1)).Nodup := (h.map _).nodup_iff.1 hnames
  ext a
  rw [lookup_eq_some_iff hnames, lookup_eq_some_iff hmoved, h.mem_iff]

/-- A path is read from the field that its first name finds. -/
theorem Record.path?_congr {r other : Record} {name : String} (path : List String)
    (h : r.get? name = other.get? name) :
    Record.path? (name :: path) r = Record.path? (name :: path) other := by
  cases path with
  | nil => exact h
  | cons next rest => rw [Record.path?, Record.path?, h]

theorem Record.path?_of_record {r inner : Record} {name : String} {path : List String} {value : Value}
    (hpath : path ≠ []) (hget : r.get? name = some value) (hrecord : value.bare.record? = some inner) :
    Record.path? (name :: path) r = Record.path? path inner := by
  cases path with
  | nil => exact absurd rfl hpath
  | cons next rest =>
    rw [Record.path?, hget, Option.bind_some, hrecord]

theorem Record.path?_of_no_record {r : Record} {name : String} {path : List String} {value : Value}
    (hpath : path ≠ []) (hget : r.get? name = some value) (hrecord : value.bare.record? = none) :
    Record.path? (name :: path) r = none := by
  cases path with
  | nil => exact absurd rfl hpath
  | cons next rest =>
    rw [Record.path?, hget, Option.bind_some, hrecord]

theorem Record.path?_of_missing {r : Record} {name : String} (path : List String)
    (h : r.get? name = none) : Record.path? (name :: path) r = none := by
  cases path with
  | nil => exact h
  | cons next rest => rw [Record.path?, h]; rfl

theorem Record.given?_nil (r : Record) : r.given? [] = none := rfl

theorem Record.given?_eq_none_of_missing {r : Record} {name : String} (path : List String)
    (h : r.get? name = none) : r.given? (name :: path) = none := by
  rw [Record.given?, path?_of_missing path h]

theorem Record.given?_congr {r other : Record} {name : String} (path : List String)
    (h : r.get? name = other.get? name) : r.given? (name :: path) = other.given? (name :: path) := by
  rw [Record.given?, Record.given?, path?_congr path h]

theorem Record.given?_of_record {r inner : Record} {name : String} {path : List String} {value : Value}
    (hpath : path ≠ []) (hget : r.get? name = some value) (hrecord : value.bare.record? = some inner) :
    r.given? (name :: path) = inner.given? path := by
  rw [Record.given?, Record.given?, path?_of_record hpath hget hrecord]

theorem Record.given?_of_no_record {r : Record} {name : String} {path : List String} {value : Value}
    (hpath : path ≠ []) (hget : r.get? name = some value) (hrecord : value.bare.record? = none) :
    r.given? (name :: path) = none := by
  rw [Record.given?, path?_of_no_record hpath hget hrecord]

theorem Record.given?_last {r : Record} {name : String} {value : Value} (h : r.get? name = some value) :
    r.given? [name] = if value.isEmpty then none else some value.bare := by
  rw [Record.given?, Record.path?, h]

section SingleField

variable {type : TypeId} {name : String} {value : Value} {path : List String}

theorem Record.get?_single (type : TypeId) (name : String) (value : Value) :
    (Record.mk type [(name, value)]).get? name = some value := by
  rw [Record.get?, Keyed.lookup, if_pos rfl]

theorem Record.given?_single (type : TypeId) (name : String) (value : Value) :
    (Record.mk type [(name, value)]).given? [name] = if value.isEmpty then none else some value.bare :=
  given?_last (get?_single type name value)

theorem Record.given?_single_of_record {r : Record} (hpath : path ≠ [])
    (h : value.bare.record? = some r) :
    (Record.mk type [(name, value)]).given? (name :: path) = r.given? path :=
  given?_of_record hpath (get?_single type name value) h

theorem Record.given?_single_of_no_record (hpath : path ≠ []) (h : value.bare.record? = none) :
    (Record.mk type [(name, value)]).given? (name :: path) = none :=
  given?_of_no_record hpath (get?_single type name value) h

theorem Record.given?_single_of_isEmpty (path : List String) (h : value.isEmpty = true) :
    (Record.mk type [(name, value)]).given? (name :: path) = none := by
  by_cases hpath : path = []
  · rw [hpath, given?_single, if_pos h]
  · have hrecord : value.bare.record? = none := by
      cases value <;> first | rfl | cases h
    exact given?_single_of_no_record hpath hrecord

end SingleField

/-- The entries make the same condition of a value, wherever each of them looks for it. -/
structure Plan.Entry.Alike (e other : Plan.Entry) : Prop where
  name : e.name = other.name
  target : e.target = other.target
  query : e.query = other.query

def Plan.Entry.queried (e : Plan.Entry) : Plan.Entry := { e with update := none, written := [] }

def Plan.Entry.unwritten (e : Plan.Entry) : Plan.Entry := { e with written := [] }

theorem Plan.map_queried_of_unwritten {a b : Except Error Plan}
    (h : a.map (fun plan => plan.entries.map Entry.unwritten) =
      b.map fun plan => plan.entries.map Entry.unwritten) :
    a.map (fun plan => plan.entries.map Entry.queried) =
      b.map fun plan => plan.entries.map Entry.queried := by
  have hforget : ∀ x : Except Error Plan, x.map (fun plan => plan.entries.map Entry.queried) =
      (x.map fun plan => plan.entries.map Entry.unwritten).map (List.map Entry.queried) := by
    rintro (e | plan)
    · rfl
    · change Except.ok (plan.entries.map Entry.queried) =
        Except.ok ((plan.entries.map Entry.unwritten).map Entry.queried)
      rw [List.map_map]
      rfl
  rw [hforget, h, ← hforget]

theorem Plan.Entry.eq_of_queried {e twin : Plan.Entry} (h : twin.queried = e.queried) :
    twin.path = e.path ∧ e.Alike twin := by
  obtain ⟨hname, hpath, htarget, hquery, -⟩ := Plan.Entry.mk.inj h
  exact ⟨hpath, hname.symm, htarget.symm, hquery.symm⟩

namespace Condition

variable {answer fresh : TypeId → Except Error Plan} {r other : Record} {e twin : Plan.Entry}
  {value : Value}

theorem leaf_congr (h : e.Alike twin) (column : String) (value : Value) :
    leaf e column value = leaf twin column value := by
  unfold leaf Plan.Entry.queryOp
  rw [h.query, h.name]

theorem part_congr (h : e.Alike twin) (value : Value) : part e value = part twin value := by
  rw [part, part, h.target]
  cases twin.target with
  | column column => exact congrArg Lookup.ofExcept (leaf_congr h column value)
  | group type => rfl

def made (answer : TypeId → Except Error Plan) (r : Record) (e : Plan.Entry) :
    Except Error (Option Condition) :=
  match r.given? e.path with
  | some value => (part e value).run answer
  | none => .ok none

theorem made_of_unset (h : r.given? e.path = none) : made answer r e = .ok none := by
  rw [made, h]

theorem made_of_set (h : r.given? e.path = some value) :
    made answer r e = (part e value).run answer := by
  rw [made, h]

theorem made_congr (h : e.Alike twin) (hread : r.given? e.path = other.given? twin.path) :
    made answer r e = made answer other twin := by
  rw [made, made, hread]
  cases other.given? twin.path with
  | none => rfl
  | some value => exact congrArg (Lookup.run answer) (part_congr h value)

theorem run_parts_cons (r : Record) (e : Plan.Entry) (rest : List Plan.Entry) :
    (parts r (e :: rest)).run answer = (made answer r e).bind fun c =>
      ((parts r rest).run answer).map (c.toList ++ ·) := by
  cases hset : r.given? e.path with
  | none =>
    rw [run_parts_unset answer rest hset, made_of_unset hset]
    change _ = ((parts r rest).run answer).map fun cs => cs
    cases (parts r rest).run answer <;> rfl
  | some value => rw [run_parts_set answer rest hset, made_of_set hset]

/-- The walks over two records agree if each entry makes what its partner makes. -/
theorem run_parts_congr {entries twins : List Plan.Entry}
    (h : List.Forall₂ (fun e twin => made answer r e = made fresh other twin) entries twins) :
    (parts r entries).run answer = (parts other twins).run fresh := by
  induction h with
  | nil => rw [parts_nil, parts_nil]; rfl
  | cons hmade _ ih => rw [run_parts_cons, run_parts_cons, hmade, ih]

/-- The elements of a group are taken one after the other. -/
theorem run_branches_append (plan : Plan) (items rest : List Value) :
    (branches plan (items ++ rest)).run answer = ((branches plan items).run answer).bind fun cs =>
      ((branches plan rest).run answer).map (cs ++ ·) := by
  induction items with
  | nil =>
    rw [branches_nil, List.nil_append]
    change _ = ((branches plan rest).run answer).map fun cs => cs
    cases (branches plan rest).run answer <;> rfl
  | cons item items ih =>
    rw [List.cons_append]
    cases hitem : item.normalize with
    | error e => rw [run_branches_error _ _ hitem, run_branches_error _ _ hitem]; rfl
    | ok r =>
      rw [run_branches_record _ _ hitem, run_branches_record _ _ hitem, ih]
      cases (parts r plan.entries).run answer with
      | error e => rfl
      | ok cs =>
        cases (branches plan items).run answer with
        | error e => rfl
        | ok ds =>
          cases (branches plan rest).run answer with
          | error e => rfl
          | ok es => exact congrArg Except.ok (List.append_assoc _ _ _).symm

theorem run_branches_of_normalize {plan : Plan} {item : Value} (h : item.normalize = .ok r) :
    (branches plan [item]).run answer =
      ((parts r plan.entries).run answer).map fun cs => (join false cs).toList := by
  rw [run_branches_record _ [] h, branches_nil]
  cases (parts r plan.entries).run answer with
  | error e => rfl
  | ok cs => exact congrArg Except.ok (List.append_nil _)

theorem run_branches_congr_item {plan : Plan} {item edited : Value}
    (h : (branches plan [item]).run answer = (branches plan [edited]).run answer)
    (before after : List Value) :
    (branches plan (before ++ item :: after)).run answer =
      (branches plan (before ++ edited :: after)).run answer := by
  rw [run_branches_append, run_branches_append]
  rw [← List.singleton_append, ← List.singleton_append (x := edited), run_branches_append, h,
    ← run_branches_append]

theorem run_branches_idle {plan : Plan} {item : Value}
    (h : (branches plan [item]).run answer = .ok []) (before after : List Value) :
    (branches plan (before ++ item :: after)).run answer =
      (branches plan (before ++ after)).run answer := by
  rw [run_branches_append, run_branches_append, ← List.singleton_append, run_branches_append, h]
  cases (branches plan after).run answer <;> rfl

/-- Two ways of answering give one condition if, on every type that can be asked for, they give plans that
differ at most in what only updates read. -/
theorem run_parts_congr_answer (asked : TypeId → Prop)
    (hagree : ∀ type, asked type →
      (answer type).map (fun plan => plan.entries.map Plan.Entry.queried) =
        (fresh type).map fun plan => plan.entries.map Plan.Entry.queried)
    (hclosed : ∀ type plan, asked type → fresh type = .ok plan →
      ∀ e ∈ plan.entries, ∀ below, e.target = .group below → asked below) :
    (∀ (r : Record) (entries : List Plan.Entry),
      (∀ e ∈ entries, ∀ type, e.target = .group type → asked type) →
      ∀ twins, twins.map Plan.Entry.queried = entries.map Plan.Entry.queried →
      (parts r twins).run answer = (parts r entries).run fresh) ∧
    ∀ (plan : Plan) (items : List Value),
      (∀ e ∈ plan.entries, ∀ type, e.target = .group type → asked type) →
      ∀ twin : Plan, twin.entries.map Plan.Entry.queried = plan.entries.map Plan.Entry.queried →
      (branches twin items).run answer = (branches plan items).run fresh := by
  refine fields_items_induction ?done ?unset ?column ?group ?none ?noRecord ?record
  case done =>
    intro r _ twins htwins
    obtain rfl := List.map_eq_nil_iff.1 htwins
    rw [parts_nil]
    rfl
  case unset =>
    intro r e rest hunset ih hasked twins htwins
    obtain ⟨twin, twinRest, rfl, htwin, hsame⟩ := List.map_eq_cons_iff.1 htwins
    obtain ⟨hpath, -⟩ := Plan.Entry.eq_of_queried htwin
    rw [run_parts_unset _ rest hunset, run_parts_unset _ twinRest (hpath ▸ hunset)]
    exact ih (List.forall_mem_cons.1 hasked).2 twinRest hsame
  case column =>
    intro r e rest value column hset htarget ih hasked twins htwins
    obtain ⟨twin, twinRest, rfl, htwin, hsame⟩ := List.map_eq_cons_iff.1 htwins
    obtain ⟨hpath, halike⟩ := Plan.Entry.eq_of_queried htwin
    rw [run_parts_set _ rest hset, run_parts_set _ twinRest (hpath ▸ hset), ← part_congr halike,
      run_part_column _ value htarget, run_part_column _ value htarget,
      ih (List.forall_mem_cons.1 hasked).2 twinRest hsame]
  case group =>
    intro r e rest value type hset htarget ihitems ih hasked twins htwins
    obtain ⟨hhead, hrest⟩ := List.forall_mem_cons.1 hasked
    obtain ⟨twin, twinRest, rfl, htwin, hsame⟩ := List.map_eq_cons_iff.1 htwins
    obtain ⟨hpath, halike⟩ := Plan.Entry.eq_of_queried htwin
    have htype := hhead type htarget
    have hpart : (part e value).run answer = (part e value).run fresh := by
      have hplans := hagree type htype
      rw [run_part_group _ value htarget, run_part_group _ value htarget]
      cases hplan : fresh type with
      | error e =>
        rw [hplan] at hplans
        rw [map_eq_error.1 hplans]
        rfl
      | ok plan =>
        rw [hplan] at hplans
        obtain ⟨other, hother, hentries⟩ := map_eq_ok.1 hplans
        rw [hother]
        exact congrArg (Except.map (join false))
          (ihitems plan (hclosed type plan htype hplan) other hentries)
    rw [run_parts_set _ rest hset, run_parts_set _ twinRest (hpath ▸ hset), ← part_congr halike, hpart,
      ih hrest twinRest hsame]
  case none =>
    intro plan _ twin _
    rw [branches_nil, branches_nil]
    rfl
  case noRecord =>
    intro plan item rest e hitem _ twin _
    rw [run_branches_error _ rest hitem, run_branches_error _ rest hitem]
  case record =>
    intro plan item rest r hitem ihfields ih hasked twin hsame
    rw [run_branches_record _ rest hitem, run_branches_record _ rest hitem,
      ihfields hasked twin.entries hsame, ih hasked twin hsame]

/-- The condition of a snapshot does not depend on what only updates read. -/
theorem run_ofValue_congr_answer
    (h : ∀ type, (answer type).map (fun plan => plan.entries.map Plan.Entry.queried) =
      (fresh type).map fun plan => plan.entries.map Plan.Entry.queried) (value : Value) :
    (ofValue value).run answer = (ofValue value).run fresh := by
  cases hvalue : value.normalize with
  | error error => rw [run_ofValue_error _ hvalue, run_ofValue_error _ hvalue]
  | ok r =>
    have hplans := h r.type
    rw [run_ofValue_record _ hvalue, run_ofValue_record _ hvalue]
    cases hplan : fresh r.type with
    | error error =>
      rw [hplan] at hplans
      rw [map_eq_error.1 hplans]
      rfl
    | ok plan =>
      rw [hplan] at hplans
      obtain ⟨twin, htwin, hsame⟩ := map_eq_ok.1 hplans
      have hwalks := run_parts_congr_answer (fun _ => True) (fun type _ => h type)
        fun _ _ _ _ _ _ _ _ => trivial
      have hparts := hwalks.1 r plan.entries (fun _ _ _ _ => trivial) twin.entries hsame
      rw [htwin]
      exact congrArg (Except.map (join true)) hparts

end Condition

namespace Assignments

variable {dialect : Dialect} {r other : Record} {e twin : Plan.Entry}

theorem addEntry_congr (htarget : e.target = twin.target) (hupdate : e.update = twin.update)
    (hread : ∀ column, twin.target = .column column → r.given? e.path = other.given? twin.path)
    (done : Assignments) : addEntry dialect r done e = addEntry dialect other done twin := by
  unfold addEntry assignment
  cases hcase : twin.target with
  | column column => rw [htarget, hupdate, hcase, hread column hcase]
  | group type => rw [htarget, hcase]

theorem foldlM_addEntry_congr {entries twins : List Plan.Entry}
    (h : List.Forall₂ (fun e twin => ∀ done,
      addEntry dialect r done e = addEntry dialect other done twin) entries twins)
    (done : Assignments) :
    entries.foldlM (addEntry dialect r) done = twins.foldlM (addEntry dialect other) done := by
  induction h generalizing done with
  | nil => rfl
  | cons hhead _ ih =>
    rw [List.foldlM_cons, List.foldlM_cons, hhead done]
    exact bind_congr ih

theorem run_ofValue_of_normalize {value : Value} (answer : TypeId → Except Error Plan)
    (h : value.normalize = .ok r) : (ofValue dialect value).run answer =
      (answer r.type).bind (ofRecord dialect r) := by
  rw [ofValue, h]
  simp only [Lookup.run]
  cases answer r.type with
  | ok plan => exact Lookup.run_ofExcept answer _
  | error e => rfl

theorem addEntry_congr_unwritten (h : twin.unwritten = e.unwritten) (done : Assignments) :
    addEntry dialect r done twin = addEntry dialect r done e := by
  obtain ⟨-, hpath, htarget, -, hupdate, -⟩ := Plan.Entry.mk.inj h
  exact addEntry_congr htarget hupdate (fun _ _ => by rw [hpath]) done

theorem ofRecord_congr_unwritten {plan other : Plan}
    (h : other.entries.map Plan.Entry.unwritten = plan.entries.map Plan.Entry.unwritten) :
    ofRecord dialect r other = ofRecord dialect r plan := by
  have hpairs : List.Forall₂ (fun twin e => twin.unwritten = e.unwritten) other.entries plan.entries :=
    List.forall₂_map_left_iff.1 (List.forall₂_map_right_iff.1 (List.forall₂_eq_eq_eq ▸ h))
  exact foldlM_addEntry_congr (hpairs.imp fun _ _ hsame => addEntry_congr_unwritten hsame) Keyed.empty

/-- The assignments of a snapshot do not depend on how annotations were written. -/
theorem run_ofValue_congr_answer {answer fresh : TypeId → Except Error Plan}
    (h : ∀ type, (answer type).map (fun plan => plan.entries.map Plan.Entry.unwritten) =
      (fresh type).map fun plan => plan.entries.map Plan.Entry.unwritten)
    (dialect : Dialect) (value : Value) :
    (ofValue dialect value).run answer = (ofValue dialect value).run fresh := by
  cases hvalue : value.normalize with
  | error error =>
    rw [ofValue, hvalue]
    rfl
  | ok r =>
    have hplans := h r.type
    rw [run_ofValue_of_normalize _ hvalue, run_ofValue_of_normalize _ hvalue]
    cases hplan : fresh r.type with
    | error error =>
      rw [hplan] at hplans
      rw [map_eq_error.1 hplans]
    | ok plan =>
      rw [hplan] at hplans
      obtain ⟨twin, htwin, hsame⟩ := map_eq_ok.1 hplans
      rw [htwin]
      exact ofRecord_congr_unwritten hsame

end Assignments

end Criteria
