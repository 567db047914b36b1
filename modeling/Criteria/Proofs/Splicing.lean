import Mathlib
import Criteria.Proofs.AddedType
import Criteria.Proofs.Conformance
import Criteria.Proofs.PlanExpansion

/-!
Flattening is inlining. Where no name of the expansion is declared twice, a struct may be replaced by
one that declares its expansion, and its records by records with the fields of the embedded records in
their place: conditions and assignments stay the same.
-/

set_option autoImplicit false

namespace Criteria

namespace Schema

/-- The fields of a record with the fields of its embedded records in their place. What stands for an
embedded record and is none leaves nothing. -/
def splice (s : Schema) (fields : List Declaration) :
    List (String × Value) → List (String × Value)
  | [] => []
  | (name, value) :: rest =>
    let here :=
      match fields.find? fun d => d.embedded && d.name = name with
      | some d =>
        match d.shape.embedded?, _h : value.bare.record? with
        | some inner, some r => s.splice (s.fieldsOf inner) r.fields
        | _, _ => []
      | none => [(name, value)]
    here ++ s.splice fields rest
termination_by values => sizeOf values
decreasing_by
  · have hlt := Value.sizeOf_record?_lt ‹_›
    simp only [List.cons.sizeOf_spec, Prod.mk.sizeOf_spec]
    omega
  · simp only [List.cons.sizeOf_spec]
    omega

/-- A record has no field that is not declared, and no field twice; so do its embedded records. -/
inductive Carries (s : Schema) : List Declaration → List (String × Value) → Prop where
  | mk {fields : List Declaration} {values : List (String × Value)}
      (hnames : (values.map (·.1)).Nodup)
      (hdeclared : ∀ name ∈ values.map (·.1), name ∈ fields.map (·.name))
      (hembedded : ∀ field ∈ values, ∀ d ∈ fields, d.name = field.1 →
        ∀ inner r, d.Embeds inner → field.2.bare.record? = some r →
          Carries s (s.fieldsOf inner) r.fields) :
    Carries s fields values

variable {s : Schema} {chain : List TypeId} {fields : List Declaration} {d other : Declaration}
  {inner : TypeId} {value : Value} {r : Record}

theorem find_embedded (hnames : (fields.map (·.name)).Nodup) (hd : d ∈ fields) :
    (fields.find? fun other => other.embedded && other.name = d.name) =
      if d.embedded then some d else none := by
  cases hembedded : d.embedded with
  | false =>
    refine List.find?_eq_none.2 fun other hother => ?_
    by_cases hname : other.name = d.name
    · have heq : other = d := List.inj_on_of_nodup_map hnames hother hd hname
      simp [heq, hembedded]
    · simp [hname]
  | true =>
    cases hfind : fields.find? fun other => other.embedded && other.name = d.name with
    | none => simpa [hembedded] using List.find?_eq_none.1 hfind d hd
    | some other =>
      have hname : other.name = d.name := by
        have hfound := List.find?_some hfind
        simp only [Bool.and_eq_true, decide_eq_true_eq] at hfound
        exact hfound.2
      have heq : other = d :=
        List.inj_on_of_nodup_map hnames (List.mem_of_find?_eq_some hfind) hd hname
      rw [heq]
      rfl

theorem splice_cons_own (hnames : (fields.map (·.name)).Nodup) (hd : d ∈ fields)
    (hown : d.embedded = false) (value : Value) (rest : List (String × Value)) :
    s.splice fields ((d.name, value) :: rest) = [(d.name, value)] ++ s.splice fields rest := by
  rw [splice, find_embedded hnames hd, hown]
  rfl

theorem splice_cons_record (hnames : (fields.map (·.name)).Nodup) (hd : d ∈ fields)
    (hembeds : d.Embeds inner) (hrecord : value.bare.record? = some r)
    (rest : List (String × Value)) :
    s.splice fields ((d.name, value) :: rest) =
      s.splice (s.fieldsOf inner) r.fields ++ s.splice fields rest := by
  have hshape := Shape.embedded?_eq_some_iff.2 hembeds.2
  rw [splice, find_embedded hnames hd, hembeds.1]
  simp only [↓reduceIte, hshape]
  split <;> simp_all

theorem splice_cons_missing (hnames : (fields.map (·.name)).Nodup) (hd : d ∈ fields)
    (hembedded : d.embedded = true) (hrecord : value.bare.record? = none)
    (rest : List (String × Value)) :
    s.splice fields ((d.name, value) :: rest) = s.splice fields rest := by
  rw [splice, find_embedded hnames hd, hembedded]
  simp only [↓reduceIte]
  split <;> simp_all

/-- What the field of one declaration leaves has only the names of its expansion, and under each of
them what the path from the field leads to. -/
structure Leaves (s : Schema) (chain : List TypeId) (d : Declaration) (value : Value)
    (left : List (String × Value)) : Prop where
  names : ∀ name ∈ left.map (·.1), name ∈ (s.expand chain d).map Site.name
  lookup_eq : ∀ site ∈ s.expand chain d, ∀ type,
    Keyed.lookup site.name left = Record.path? site.path ⟨type, [(d.name, value)]⟩

structure Splices (s : Schema) (chain : List TypeId) (fields : List Declaration)
    (values : List (String × Value)) : Prop where
  names : ∀ name ∈ (s.splice fields values).map (·.1),
    name ∈ (s.expandAll chain fields).map Site.name
  lookup_eq : ∀ site ∈ s.expandAll chain fields, ∀ type,
    Keyed.lookup site.name (s.splice fields values) = Record.path? site.path ⟨type, values⟩

theorem path_of_mem_expand {site : Site} (h : site ∈ s.expand chain d) :
    ∃ path, site.path = d.name :: path := by
  rw [expand] at h
  split at h
  · split at h
    · split at h
      · obtain ⟨owner, -, hbelow⟩ := List.mem_flatMap.1 h
        obtain ⟨below, -, rfl⟩ := List.mem_map.1 hbelow
        exact ⟨below.path, rfl⟩
      · cases h
    · cases h
  · obtain rfl := List.mem_singleton.1 h
    exact ⟨[], rfl⟩

theorem path_ne_nil_of_mem_expandAll {site : Site} (h : site ∈ s.expandAll chain fields) :
    site.path ≠ [] := by
  obtain ⟨d, -, hsite⟩ := mem_expandAll.1 h
  obtain ⟨path, hpath⟩ := path_of_mem_expand hsite
  rw [hpath]
  exact List.cons_ne_nil _ _

theorem leaves_own (hown : d.embedded = false) (value : Value) :
    s.Leaves chain d value [(d.name, value)] := by
  constructor
  · rw [expand_own hown]
    simp [Site.name]
  · rw [expand_own hown]
    intro site hsite type
    obtain rfl := List.mem_singleton.1 hsite
    rfl

theorem Splices.leaves (h : s.Splices (chain ++ [inner]) (s.fieldsOf inner) r.fields)
    (hembeds : d.Embeds inner) (hchain : inner ∉ chain) (hrecord : value.bare.record? = some r) :
    s.Leaves chain d value (s.splice (s.fieldsOf inner) r.fields) := by
  constructor
  · rw [expand_embeds hembeds hchain, names_inside]
    exact h.names
  · intro site hsite type
    rw [expand_embeds hembeds hchain] at hsite
    obtain ⟨below, hbelow, rfl⟩ := List.mem_map.1 hsite
    have hget := Record.get?_single type d.name value
    have henter := Record.path?_of_record (path_ne_nil_of_mem_expandAll hbelow) hget hrecord
    exact (h.lookup_eq below hbelow r.type).trans henter.symm

theorem leaves_missing (hembeds : d.Embeds inner) (hchain : inner ∉ chain)
    (hrecord : value.bare.record? = none) : s.Leaves chain d value [] := by
  constructor
  · simp
  · intro site hsite type
    rw [expand_embeds hembeds hchain] at hsite
    obtain ⟨below, hbelow, rfl⟩ := List.mem_map.1 hsite
    have hget := Record.get?_single type d.name value
    exact (Record.path?_of_no_record (path_ne_nil_of_mem_expandAll hbelow) hget hrecord).symm

theorem nodup_names_expand (hall : ((s.expandAll chain fields).map Site.name).Nodup) (hd : d ∈ fields) :
    ((s.expand chain d).map Site.name).Nodup := by
  rw [expandAll, List.map_flatMap] at hall
  exact (List.nodup_flatMap.1 hall).1 d hd

theorem not_mem_names_expand (hall : ((s.expandAll chain fields).map Site.name).Nodup)
    (hd : d ∈ fields) (hother : other ∈ fields) (hne : d ≠ other) {name : String}
    (h : name ∈ (s.expand chain d).map Site.name) :
    name ∉ (s.expand chain other).map Site.name := by
  rw [expandAll, List.map_flatMap, List.nodup_flatMap] at hall
  have : Std.Symm (Function.onFun List.Disjoint fun d => (s.expand chain d).map Site.name) :=
    ⟨fun _ _ hdisjoint => hdisjoint.symm⟩
  have hdisjoint := hall.2.forall hd hother hne
  exact fun hmem => hdisjoint h hmem

theorem exists_leaves (hnames : (fields.map (·.name)).Nodup) (hd : d ∈ fields)
    (hown : d.embedded = true → ∃ inner, d.Embeds inner ∧ inner ∉ chain ∧
      ∀ r, value.bare.record? = some r → s.Splices (chain ++ [inner]) (s.fieldsOf inner) r.fields)
    (rest : List (String × Value)) :
    ∃ left, s.splice fields ((d.name, value) :: rest) = left ++ s.splice fields rest ∧
      s.Leaves chain d value left := by
  cases hembedded : d.embedded with
  | false => exact ⟨_, splice_cons_own hnames hd hembedded value rest, leaves_own hembedded value⟩
  | true =>
    obtain ⟨inner, hembeds, hchain, hinner⟩ := hown hembedded
    cases hrecord : value.bare.record? with
    | none =>
      exact ⟨[], splice_cons_missing hnames hd hembedded hrecord rest,
        leaves_missing hembeds hchain hrecord⟩
    | some r =>
      exact ⟨_, splice_cons_record hnames hd hembeds hrecord rest,
        (hinner r hrecord).leaves hembeds hchain hrecord⟩

theorem splices_of_leaves (hnames : (fields.map (·.name)).Nodup)
    (hall : ((s.expandAll chain fields).map Site.name).Nodup)
    {values : List (String × Value)} (hvalues : (values.map (·.1)).Nodup)
    (hleaves : ∀ field ∈ values, ∃ d ∈ fields, d.name = field.1 ∧ ∀ rest, ∃ left,
      s.splice fields (field :: rest) = left ++ s.splice fields rest ∧
        s.Leaves chain d field.2 left) :
    s.Splices chain fields values := by
  induction values with
  | nil =>
    constructor
    · simp [splice]
    · intro site hsite type
      obtain ⟨d, -, hsite⟩ := mem_expandAll.1 hsite
      obtain ⟨path, hpath⟩ := path_of_mem_expand hsite
      rw [splice, hpath]
      cases path <;> rfl
  | cons field rest ih =>
    obtain ⟨name, value⟩ := field
    obtain ⟨hhead, hrest⟩ := List.forall_mem_cons.1 hleaves
    obtain ⟨d, hd, rfl, hleft⟩ := hhead
    obtain ⟨left, hsplice, hleft⟩ := hleft rest
    obtain ⟨hnew, hvalues⟩ := List.nodup_cons.1 hvalues
    have hsplices := ih hvalues hrest
    constructor
    · rw [hsplice, List.map_append]
      intro name hname
      rcases List.mem_append.1 hname with hname | hname
      · have hmem := hleft.names name hname
        rw [expandAll, List.map_flatMap]
        exact List.mem_flatMap.2 ⟨d, hd, hmem⟩
      · exact hsplices.names name hname
    · intro site hsite type
      have hbelow := hsplices.lookup_eq site hsite type
      obtain ⟨owner, howner, hsite⟩ := mem_expandAll.1 hsite
      obtain ⟨path, hpath⟩ := path_of_mem_expand hsite
      rw [hsplice, Keyed.lookup_append, hbelow]
      by_cases hname : owner = d
      · -- the field of the site itself: no other field has its name
        subst hname
        have hlookup := hleft.lookup_eq site hsite type
        have hnone : Record.path? site.path ⟨type, rest⟩ = none := by
          have hget : (Record.mk type rest).get? owner.name = (Record.mk type []).get? owner.name :=
            Keyed.lookup_eq_none hnew
          rw [hpath, Record.path?_congr path hget]
          cases path <;> rfl
        have hget : (Record.mk type [(owner.name, value)]).get? owner.name =
            (Record.mk type ((owner.name, value) :: rest)).get? owner.name := by
          simp [Record.get?, Keyed.lookup]
        rw [hlookup, hnone, Option.or_none, hpath]
        exact Record.path?_congr path hget
      · -- the field of another declaration: nothing that it leaves has the name of the site
        have hmem : site.name ∈ (s.expand chain owner).map Site.name := List.mem_map_of_mem hsite
        have hforeign : Keyed.lookup site.name left = none := Keyed.lookup_eq_none fun hleftName =>
          not_mem_names_expand hall howner hd hname hmem (hleft.names _ hleftName)
        have hne : d.name ≠ owner.name := fun heq =>
          hname (List.inj_on_of_nodup_map hnames howner hd heq.symm)
        have hget : (Record.mk type rest).get? owner.name =
            (Record.mk type ((d.name, value) :: rest)).get? owner.name := by
          simp [Record.get?, Keyed.lookup, hne]
        rw [hforeign, Option.none_or, hpath]
        exact Record.path?_congr path hget

theorem Carries.splices {values : List (String × Value)} (h : s.Carries fields values)
    (hnames : (fields.map (·.name)).Nodup)
    (hall : ((s.expandAll chain fields).map Site.name).Nodup)
    (hbelow : ∀ d ∈ fields, d.embedded = true → ∃ inner, d.Embeds inner ∧ inner ∉ chain ∧
      ∀ values, s.Carries (s.fieldsOf inner) values →
        s.Splices (chain ++ [inner]) (s.fieldsOf inner) values) :
    s.Splices chain fields values := by
  cases h with
  | mk hvalues hdeclared hembedded =>
    refine splices_of_leaves hnames hall hvalues fun field hfield => ?_
    obtain ⟨d, hd, hname⟩ := List.mem_map.1 (hdeclared _ (List.mem_map_of_mem hfield))
    obtain ⟨name, value⟩ := field
    obtain rfl : d.name = name := hname
    refine ⟨d, hd, rfl, exists_leaves hnames hd fun hown => ?_⟩
    obtain ⟨inner, hembeds, hchain, hsplices⟩ := hbelow d hd hown
    refine ⟨inner, hembeds, hchain, fun r hrecord => ?_⟩
    exact hsplices r.fields (hembedded _ hfield d hd rfl inner r hembeds hrecord)

theorem Unfolds.splices (hnames : s.DistinctNames) (h : s.Unfolds chain d)
    (hall : ((s.expand chain d).map Site.name).Nodup) (hembedded : d.embedded = true) :
    ∃ inner, d.Embeds inner ∧ inner ∉ chain ∧ ∀ values, s.Carries (s.fieldsOf inner) values →
      s.Splices (chain ++ [inner]) (s.fieldsOf inner) values := by
  induction h with
  | own hown => simp [hown] at hembedded
  | @embeds chain d inner hembeds hchain _ ih =>
    rw [expand_embeds hembeds hchain, names_inside] at hall
    refine ⟨inner, hembeds, hchain, fun values hcarries => ?_⟩
    exact hcarries.splices (hnames inner) hall fun below hbelow =>
      ih below hbelow (nodup_names_expand hall hbelow)

theorem WalksTo.splices {path : List String} {done entries : List Plan.Entry}
    {values : List (String × Value)} (h : s.WalksTo chain path fields done entries)
    (hdistinct : s.DistinctNames) (hnames : (fields.map (·.name)).Nodup)
    (hall : ((s.expandAll chain fields).map Site.name).Nodup) (hcarries : s.Carries fields values) :
    s.Splices chain fields values :=
  hcarries.splices hnames hall fun d hd =>
    (h.unfolds d hd).splices hdistinct (nodup_names_expand hall hd)

theorem given?_splice (flat : TypeId) {type : TypeId} {plan : Plan} {r : Record}
    (hplan : s.plan type = .ok plan) (hdistinct : s.DistinctNames)
    (hnames : ((s.expansion type).map (·.name)).Nodup) (hcarries : s.Carries (s.fieldsOf type) r.fields) :
    ∀ e ∈ plan.entries, (Record.mk flat (s.splice (s.fieldsOf type) r.fields)).given? [e.name] =
      r.given? e.path := by
  intro e he
  rw [entries_of_expansion hplan hnames] at he
  obtain ⟨site, hsite, hentry⟩ := List.mem_filterMap.1 he
  obtain ⟨-, hwalk⟩ := plan_eq_ok_iff.1 hplan
  have hsplices := hwalk.splices hdistinct (hdistinct type) (names_expandAll_nodup hnames) hcarries
  have hname := Site.name_of_planned? hentry
  have hpath := Site.path_of_planned? hentry
  have hread : Record.path? [e.name] ⟨flat, s.splice (s.fieldsOf type) r.fields⟩ =
      Record.path? e.path r := by
    rw [hname, hpath]
    exact hsplices.lookup_eq site hsite r.type
  rw [Record.given?, Record.given?, hread]

/-- The struct that declares an expansion can be planned, with the same entries up to their paths, and
the builders make of a spliced record what they make of the record. -/
theorem builders_of_expansion {type : TypeId} {plan : Plan} (hplan : s.plan type = .ok plan)
    (hdistinct : s.DistinctNames) (hnames : ((s.expansion type).map (·.name)).Nodup) :
    (∃ t flat, s.Adds t flat (s.expansion type)) ∧
    ∀ t flat, s.Adds t flat (s.expansion type) →
      t.plan flat = .ok ⟨flat, plan.entries.map Plan.Entry.atTop⟩ ∧
      ∀ value r, value.normalize = .ok r → r.type = type → s.Carries (s.fieldsOf type) r.fields →
        let spliced := Value.record flat (s.splice (s.fieldsOf type) r.fields)
        (Condition.ofValue spliced).run t.plan = (Condition.ofValue value).run s.plan ∧
        ∀ dialect, (Assignments.ofValue dialect spliced).run t.plan =
          (Assignments.ofValue dialect value).run s.plan := by
  -- each entry reads in the spliced record what its partner reads in the record
  refine ⟨s.exists_adds _, fun t flat hadds => ?_⟩
  have hflat := plan_of_expansion hplan hnames hadds.added
  refine ⟨hflat, fun value r hvalue htype hcarries => ?_⟩
  subst htype
  have hread := given?_splice flat hplan hdistinct hnames hcarries
  intro spliced
  have hspliced : spliced.normalize = .ok ⟨flat, s.splice (s.fieldsOf r.type) r.fields⟩ := rfl
  constructor
  · have hgroups : ∀ e ∈ plan.entries.map Plan.Entry.atTop, ∀ below, e.target = .group below →
        below ≠ flat := by
      intro e he
      obtain ⟨own, hown, rfl⟩ := List.mem_map.1 he
      exact hadds.not_group_of_plan hplan own hown
    have hmade : ∀ e ∈ plan.entries, Condition.made s.plan
        ⟨flat, s.splice (s.fieldsOf r.type) r.fields⟩ e.atTop = Condition.made s.plan r e :=
      fun e he => Condition.made_congr ⟨rfl, rfl, rfl⟩ (hread e he)
    have hparts := Condition.run_parts_congr
      (List.forall₂_map_left_iff.2 (List.forall₂_same.2 hmade))
    rw [Condition.run_ofValue_record _ hspliced, Condition.run_ofValue_record _ hvalue, hflat, hplan]
    change ((Condition.parts _ _).run t.plan).map _ = ((Condition.parts _ _).run s.plan).map _
    rw [hadds.run_parts_eq _ hgroups, hparts]
  · intro dialect
    have hadded : ∀ e ∈ plan.entries, ∀ done, Assignments.addEntry dialect
        ⟨flat, s.splice (s.fieldsOf r.type) r.fields⟩ done e.atTop =
          Assignments.addEntry dialect r done e :=
      fun e he => Assignments.addEntry_congr (e := e.atTop) rfl rfl fun _ _ => hread e he
    rw [Assignments.run_ofValue_of_normalize _ hspliced, Assignments.run_ofValue_of_normalize _ hvalue,
      hflat, hplan]
    exact Assignments.foldlM_addEntry_congr
      (List.forall₂_map_left_iff.2 (List.forall₂_same.2 hadded)) _

def pagedSearches : Schema :=
  ⟨[⟨"PagedSearch", [⟨"name", .text, false, ⟨some "name", some "like", none⟩⟩,
      ⟨"paging", .optional (.struct 1), true, {}⟩]⟩,
    ⟨"Paging", [⟨"size", .int, false, ⟨some "size", none, none⟩⟩,
      ⟨"sort", .optional (.struct 2), true, {}⟩]⟩,
    ⟨"Sort", [⟨"by", .text, false, ⟨some "by", none, some "+"⟩⟩]⟩]⟩

def pagedSearchPlan : Plan :=
  ⟨0, [⟨"name", ["name"], .column "name", some .like, none, [("column", "name"), ("query", "like")]⟩,
    ⟨"size", ["paging", "size"], .column "size", none, none, [("column", "size")]⟩,
    ⟨"by", ["paging", "sort", "by"], .column "by", none, some .add,
      [("column", "by"), ("update", "+")]⟩]⟩

def pagedSearch : List (String × Value) :=
  [("name", .text "a%"), ("paging", .present (.record 1 [("size", .int 5), ("sort", .null)]))]

theorem pagedSearches_distinctNames : pagedSearches.DistinctNames := by
  rintro (_ | _ | _ | type) <;> simp [pagedSearches, fieldsOf, struct?]

theorem pagedSearch_carries : pagedSearches.Carries (pagedSearches.fieldsOf 0) pagedSearch := by
  have hpaging : pagedSearches.Carries (pagedSearches.fieldsOf 1)
      [("size", .int 5), ("sort", .null)] := by
    refine .mk (by decide) (by decide) ?_
    intro field hfield d hd hname inner r hembeds hrecord
    simp [pagedSearches, fieldsOf, struct?] at hfield hd
    rcases hfield with rfl | rfl <;> simp [Value.bare, Value.record?] at hrecord
  refine .mk (by decide) (by decide) ?_
  intro field hfield d hd hname inner r hembeds hrecord
  simp [pagedSearch] at hfield
  rcases hfield with rfl | rfl
  · simp [Value.bare, Value.record?] at hrecord
  · simp [Value.bare, Value.record?] at hrecord
    subst hrecord
    simp [pagedSearches, fieldsOf, struct?] at hd
    rcases hd with rfl | rfl
    · simp at hname
    · obtain rfl : 1 = inner := by simpa [Declaration.Embeds, Shape.required] using hembeds
      exact hpaging

theorem pagedSearch_builds :
    pagedSearches.plan 0 = .ok pagedSearchPlan ∧
    pagedSearches.splice (pagedSearches.fieldsOf 0) pagedSearch =
      [("name", .text "a%"), ("size", .int 5)] ∧
    let flattened := pagedSearches.adding 3 (pagedSearches.expansion 0)
    flattened.plan 3 = .ok ⟨3, pagedSearchPlan.entries.map Plan.Entry.atTop⟩ ∧
    (Condition.ofValue (.record 3 [("name", .text "a%"), ("size", .int 5)])).run flattened.plan =
      (Condition.ofValue (.present (.record 0 pagedSearch))).run pagedSearches.plan := by
  have hplan : pagedSearches.plan 0 = .ok pagedSearchPlan := by cbv
  have hspliced : pagedSearches.splice (pagedSearches.fieldsOf 0) pagedSearch =
      [("name", .text "a%"), ("size", .int 5)] := by cbv
  have hnames : ((pagedSearches.expansion 0).map (·.name)).Nodup := by
    have heq : (pagedSearches.expansion 0).map (·.name) = ["name", "size", "by"] := by cbv
    rw [heq]
    decide
  have hadds : pagedSearches.Adds (pagedSearches.adding 3 (pagedSearches.expansion 0)) 3
      (pagedSearches.expansion 0) := adds_adding (by decide) (by decide) _
  obtain ⟨-, hbuilders⟩ := builders_of_expansion hplan pagedSearches_distinctNames hnames
  obtain ⟨hflat, hsame⟩ := hbuilders _ _ hadds
  have hsearch := hsame (.present (.record 0 pagedSearch)) ⟨0, pagedSearch⟩ rfl rfl pagedSearch_carries
  rw [hspliced] at hsearch
  exact ⟨hplan, hspliced, hflat, hsearch.1⟩

end Schema

end Criteria
