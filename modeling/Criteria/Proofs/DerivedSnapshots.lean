import Mathlib
import Criteria.FieldType.Struct
import Criteria.Proofs.BuilderFailures
import Criteria.Proofs.MergePatches

set_option autoImplicit false

namespace Criteria

/-- The fields of a record are the snapshot of a described struct: they have the declared names, each
field that merges is stored as it was serialized, and so on in the records of embedded fields. -/
inductive Schema.SnapshotOf (s : Schema) : TypeId → List (String × Value) → Prop where
  | intro {type : TypeId} {fields : List (String × Value)}
      (hnames : fields.map (·.1) = (s.fieldsOf type).map (·.name))
      (hmerged : ∀ pair ∈ (s.fieldsOf type).zip fields,
        pair.1.updateToken = UpdateOp.mergeJson.token →
        ∃ snapshot outcome, pair.2.2 = Value.ofSerialized snapshot outcome)
      (hembedded : ∀ pair ∈ (s.fieldsOf type).zip fields, ∀ inner own nested,
        pair.1.Embeds inner → pair.2.2.bare = .record own nested → own = inner)
      (hnested : ∀ pair ∈ (s.fieldsOf type).zip fields, ∀ inner nested,
        pair.1.Embeds inner → pair.2.2.bare = .record inner nested → SnapshotOf s inner nested) :
    SnapshotOf s type fields

theorem StructField.isMerged_of_updateToken {f : StructField}
    (h : f.declaration.updateToken = UpdateOp.mergeJson.token) : f.isMerged = true := by
  change f.annotations.update.getD "" = _ at h
  unfold isMerged
  cases hupdate : f.annotations.update with
  | none =>
    rw [hupdate] at h
    exact absurd h (by decide)
  | some token =>
    rw [hupdate] at h
    exact decide_eq_true (congrArg some h)

/-- A record is found in a field only where it stands in the plain snapshot. -/
theorem StructField.snapshot_of_stored {f : StructField} {x : f.type.Carrier} {own : TypeId}
    {nested : List (String × Value)} (h : (f.stored x).bare = .record own nested) :
    (f.type.snapshot x).bare = .record own nested := by
  unfold stored at h
  dsimp only at h
  split at h
  · exact absurd h (Value.bare_ofSerialized_ne_record _ _ _ _)
  · exact h

namespace FieldType

variable {t : FieldType} {inner own : TypeId} {nested : List (String × Value)}

theorem type_eq_of_shape (h : t.shape = .struct inner) {x : t.Carrier}
    (hrecord : t.snapshot x = .record own nested) : own = inner := by
  induction t with
  | struct type =>
    obtain rfl := Shape.struct.inj h
    exact (Value.record.inj hrecord).1.symm
  | boxed t ih => exact ih h hrecord
  | _ => cases h

theorem type_eq_of_required (h : t.shape.required = .struct inner) {x : t.Carrier}
    (hrecord : (t.snapshot x).bare = .record own nested) : own = inner := by
  induction t with
  | struct type =>
    obtain rfl := Shape.struct.inj h
    exact (Value.record.inj hrecord).1.symm
  | optional t =>
    cases x with
    | none => cases hrecord
    | some x => exact type_eq_of_shape h hrecord
  | boxed t ih => exact ih h hrecord
  | _ => cases h

end FieldType

namespace Schema

variable {s : Schema} {type : TypeId} {r : Record} {value : Value} {plan : Plan} {e : Plan.Entry}

/-- The snapshot of a struct from the values of its fields, those of embedded fields again taken in this
way. -/
theorem snapshotOf_snapshotFields {name : String} {valued : List StructField.Valued}
    (hdeclared : s.fieldsOf type = (StructType.ofFields name (valued.map (·.1))).fields)
    (hnested : ∀ f ∈ valued, f.1.embedded = true → ∀ own nested,
      (f.1.type.snapshot f.2).bare = .record own nested → s.SnapshotOf own nested) :
    s.SnapshotOf type (StructValue.snapshotFields valued) := by
  have hfields : s.fieldsOf type =
      (valued.filter (·.1.isAnnotated)).map fun f => f.1.declaration := by
    rw [hdeclared, StructType.ofFields, List.filter_map, List.map_map]
    rfl
  have hpairs : ∀ pair ∈ (s.fieldsOf type).zip (StructValue.snapshotFields valued), ∃ f ∈ valued,
      pair = (f.1.declaration, f.1.name, f.1.stored f.2) := by
    intro pair hpair
    rw [hfields, StructValue.snapshotFields, List.zip_map', List.mem_map] at hpair
    obtain ⟨f, hf, rfl⟩ := hpair
    exact ⟨f, (List.mem_filter.1 hf).1, rfl⟩
  refine .intro ?_ ?_ ?_ ?_
  · rw [hfields, StructValue.snapshotFields, List.map_map, List.map_map]
    rfl
  · intro pair hpair hmerge
    obtain ⟨f, hf, rfl⟩ := hpairs pair hpair
    refine ⟨f.1.type.snapshot f.2, f.1.type.serialize f.2, ?_⟩
    rw [StructField.stored, StructField.isMerged_of_updateToken hmerge]
    rfl
  · intro pair hpair inner own nested hembeds hbare
    obtain ⟨f, hf, rfl⟩ := hpairs pair hpair
    exact FieldType.type_eq_of_required hembeds.2 (StructField.snapshot_of_stored hbare)
  · intro pair hpair inner nested hembeds hbare
    obtain ⟨f, hf, rfl⟩ := hpairs pair hpair
    exact hnested f hf hembeds.1 inner nested (StructField.snapshot_of_stored hbare)

/-- What is found at a declaration that merges was stored as a document, or is unset. -/
theorem SnapshotOf.path? (hnames : s.DistinctNames) {fields : List Declaration} {address : Address}
    {site : Site} (hsite : s.Reaches fields address site) (hfields : fields = s.fieldsOf type)
    (h : s.SnapshotOf type r.fields) (hpath : Record.path? site.path r = some value)
    (hmerge : site.declaration.updateToken = UpdateOp.mergeJson.token) :
    ∃ snapshot outcome, value = Value.ofSerialized snapshot outcome := by
  -- on the way to the declaration every record is the snapshot of the struct that is embedded there
  induction hsite generalizing type r with
  | here hd =>
    subst hfields
    cases h with
    | intro hdeclared hmerged _ _ =>
      exact hmerged _ (mem_zip_of_lookup hnames hdeclared hd hpath) hmerge
  | @inside fields i d inner address site hd hembeds hsite ih =>
    subst hfields
    obtain ⟨outer, record, houter, hbare, hrest⟩ := Record.path?_cons hsite.path_ne_nil hpath
    cases h with
    | intro hdeclared _ hembedded hnested =>
      have hpair := mem_zip_of_lookup hnames hdeclared hd houter
      obtain rfl := hembedded _ hpair inner record.type record.fields hembeds hbare
      exact ih rfl (hnested _ hpair _ record.fields hembeds hbare) hrest hmerge

theorem SnapshotOf.sets_document (hnames : s.DistinctNames) (hplan : s.plan r.type = .ok plan)
    (h : s.SnapshotOf r.type r.fields) (he : e ∈ plan.entries) (hmerge : e.update = some .mergeJson)
    {column : String} (hsets : Assignments.Sets r e column value) :
    ∃ outcome, value = .document outcome := by
  obtain ⟨address, site, target, hsite, -, -, rfl⟩ := makes_of_mem_plan hplan e he
  obtain ⟨found, hpath, hset, rfl⟩ := Record.given?_eq_some hsets.2
  rw [Declaration.update_entry] at hmerge
  have htoken := Declaration.update?_eq_some_iff.1 hmerge
  obtain ⟨snapshot, outcome, rfl⟩ := h.path? hnames hsite rfl hpath htoken.symm
  rw [Value.isEmpty_ofSerialized] at hset
  obtain ⟨stored, hstored, -⟩ := Value.exists_stored hset outcome
  exact ⟨stored, by rw [hstored]; rfl⟩

end Schema

namespace Assignments

open Schema

variable {s : Schema} {r : Record} {value : Value}

theorem run_ne_projection (hnames : s.DistinctNames) (hvalue : value.normalize = .ok r)
    (h : s.SnapshotOf r.type r.fields) (dialect : Dialect) (kind : String) :
    (ofValue dialect value).run s.plan ≠ .error (.projection kind) := by
  intro herror
  cases hplan : s.plan r.type with
  | error e =>
    rw [ofValue, hvalue] at herror
    simp only [Lookup.run, hplan, Except.error.injEq] at herror
    subst herror
    cases classOf_of_plan_eq_error hplan
  | ok plan =>
    rw [run_ofValue_record hvalue hplan] at herror
    obtain ⟨before, e, after, hentries, hrefuses, -⟩ := foldlM_addEntry_eq_error_iff.1 herror
    obtain ⟨hmerge, column, found, hsets, hwhy⟩ := hrefuses.of_merge
    have he : e ∈ plan.entries := by simp [hentries]
    obtain ⟨outcome, rfl⟩ := h.sets_document hnames hplan he hmerge hsets
    rcases hwhy with ⟨message, -, hwhy⟩ | ⟨type, fields, hbare, -⟩
    · cases hwhy
    · cases hbare

/-- Merging, from the snapshot of a field to the update. A stored field is empty if its snapshot is, and
otherwise a document. A merge refuses documents that failed to serialize and bare records; every other
value it binds twice, by its JSON text, and it never leaves the column out. So through any cache of any
host an update has the column of every set field that merges, bound by this field unless a later set
field of the column overwrites it. The snapshot of a described struct is never refused for a bare
record. -/
theorem merges_never_omitted (s : Schema) (actions : List Action) (id : CacheId) (dialect : Dialect) :
    let result := fun value : Value =>
      ((ofValue dialect value).runIn s ((Host.after s actions).cache id)).result
    (∀ (snapshot : Value) (outcome : Except String Json),
      (snapshot.ofSerialized outcome).isEmpty = snapshot.isEmpty ∧
      (snapshot.isEmpty = false → ∃ stored, snapshot.ofSerialized outcome = .document stored ∧
        ∀ message, stored = .error message ↔ outcome = .error message)) ∧
    (∀ (column : String) (value : Value),
      let made := UpdateOp.mergeJson.assign column value dialect
      (∀ message, made = .error (.serialization message) ↔
        value.bare = .document (.error message)) ∧
      (∀ kind, made = .error (.projection kind) ↔
        kind = "struct" ∧ ∃ type fields, value.bare = .record type fields) ∧
      ((∀ message, value.bare ≠ .document (.error message)) →
        (∀ type fields, value.bare ≠ .record type fields) →
        made = .ok (some (.compute (.merge dialect column value.toJson)))) ∧
      value.toJson.text ≠ "" ∧ made ≠ .ok none) ∧
    (∀ value last, result value = .ok last →
      ∃ r plan, value.normalize = .ok r ∧ s.plan r.type = .ok plan ∧
        ∀ before e after column found, plan.entries = before ++ e :: after →
          e.update = some .mergeJson → Sets r e column found →
          last.get? column = some (.compute (.merge dialect column found.toJson)) ∨
            ∃ later ∈ after, ∃ twin a, Sets r later column twin ∧
              Makes dialect later column twin a ∧ last.get? column = some a) ∧
    (s.DistinctNames → ∀ value r, value.normalize = .ok r → s.SnapshotOf r.type r.fields →
      ∀ kind, result value ≠ .error (.projection kind)) := by
  intro result
  have hrun : ∀ value, result value = (ofValue dialect value).run s.plan := fun value =>
    (CacheStep.transparent_runIn _).result _ (Host.sound_cache_after s actions id)
  refine ⟨fun snapshot outcome => ⟨snapshot.isEmpty_ofSerialized outcome, fun hset =>
      Value.exists_stored hset outcome⟩, fun column value => ⟨fun message =>
      UpdateOp.assign_mergeJson_eq_serialization_iff, fun kind =>
      UpdateOp.assign_mergeJson_eq_projection_iff, fun hdocument hrecord => ?_, ?_, ?_⟩,
    fun value last hlast => ?_, fun hnames value r hvalue h kind => ?_⟩
  · rcases UpdateOp.assign_mergeJson_cases column value dialect with ⟨message, hbare, -⟩ |
      ⟨type, fields, hbare, -⟩ | ⟨-, -, hok⟩
    · exact absurd hbare (hdocument message)
    · exact absurd hbare (hrecord type fields)
    · exact hok
  · have hwritten := value.toJson.isEmpty_text
    intro hnone
    rw [hnone] at hwritten
    cases hwritten
  · exact UpdateOp.mergeJson.assign_ne_none column value dialect
  · rw [hrun] at hlast
    obtain ⟨r, plan, hvalue, hplan, hwalk⟩ := exists_walk_of_run_eq_ok hlast
    refine ⟨r, plan, hvalue, hplan, ?_⟩
    intro before e after column found hentries hmerge hsets
    exact get?_of_merge (hentries ▸ hwalk) hmerge hsets
  · rw [hrun]
    exact run_ne_projection hnames hvalue h dialect kind

def blobField : StructField :=
  { name := "blob", type := .optional (.struct 2),
    annotations := { column := some "blob", update := some "merge_json" } }

def extrasField : StructField :=
  { name := "extras", type := .optional (.struct 1), embedded := true }

def extrasValues : List StructField.Valued :=
  [⟨blobField, some (⟨[("size", .null)], .ok (.object [("size", .null)])⟩ : StructValue)⟩]

def patchValues : List StructField.Valued :=
  [⟨extrasField, some (⟨StructValue.snapshotFields extrasValues, .ok .null⟩ : StructValue)⟩]

def patches : Schema :=
  ⟨[StructType.ofFields "Patch" [extrasField], StructType.ofFields "Extras" [blobField],
    ⟨"Blob", []⟩]⟩

def patchPlan : Plan :=
  ⟨0, [⟨"blob", ["extras", "blob"], .column "blob", none, some .mergeJson,
    [("column", "blob"), ("update", "merge_json")]⟩]⟩

def patch : Record := ⟨0, StructValue.snapshotFields patchValues⟩

theorem snapshotOf_patch : patches.SnapshotOf patch.type patch.fields := by
  refine snapshotOf_snapshotFields (by rfl) fun f hf _ own nested hbare => ?_
  obtain rfl := List.mem_singleton.1 hf
  obtain ⟨rfl, rfl⟩ := Value.record.inj hbare
  refine snapshotOf_snapshotFields (by rfl) fun f hf hembedded => ?_
  obtain rfl := List.mem_singleton.1 hf
  cases hembedded

theorem distinctNames_patches : patches.DistinctNames := by
  rintro (_ | _ | _ | type) <;> simp [patches, fieldsOf, struct?, StructType.ofFields] <;> decide

/-- The blob is merged without its null member, and its record is not refused. -/
theorem patch_merged :
    patches.DistinctNames ∧ patches.SnapshotOf patch.type patch.fields ∧ ∃ last,
      ((ofValue .sqlite (.record 0 patch.fields)).runIn patches
        ((Host.after patches []).cache 0)).result = .ok last ∧
      last.get? "blob" = some (.compute (.merge .sqlite "blob" (.object []))) ∧
      (∀ kind, ((ofValue .sqlite (.record 0 patch.fields)).runIn patches
        ((Host.after patches []).cache 0)).result ≠ .error (.projection kind)) ∧
      UpdateOp.mergeJson.assign "blob" (.present (.text "x")) .sqlite =
        .ok (some (.compute (.merge .sqlite "blob" (.string "x")))) ∧
      ∃ stored, Value.ofSerialized (.bool true) (.error "unwritable") = .document stored ∧
        stored = .error "unwritable" := by
  obtain ⟨hstores, hmakes, hbound, hnever⟩ := merges_never_omitted patches [] 0 .sqlite
  have hplan : patches.plan 0 = .ok patchPlan := by cbv
  have hvalue : (Value.record 0 patch.fields).normalize = .ok patch := rfl
  have haccepts : ∀ e ∈ patchPlan.entries, ∀ err, ¬ Refuses .sqlite patch e err := by
    intro e he
    obtain rfl := List.mem_singleton.1 he
    exact not_refuses_document rfl
  obtain ⟨last, hlast⟩ := exists_result patches [] 0 hvalue hplan haccepts
  obtain ⟨r, plan, hvalue', hplan', hfields⟩ := hbound _ last hlast
  obtain rfl := Except.ok.inj hvalue'
  obtain rfl := Except.ok.inj (hplan.symm.trans hplan')
  obtain ⟨stored, hstored, hfailed⟩ := (hstores (.bool true) (.error "unwritable")).2 rfl
  refine ⟨distinctNames_patches, snapshotOf_patch, last, hlast, ?_,
    hnever distinctNames_patches _ patch rfl snapshotOf_patch,
    (hmakes "blob" (.present (.text "x"))).2.2.1 (by simp [Value.bare]) (by simp [Value.bare]),
    stored, hstored, (hfailed _).2 rfl⟩
  rcases hfields [] _ [] "blob" _ rfl rfl ⟨rfl, rfl⟩ with hget | ⟨later, hlater, -⟩
  · exact hget
  · cases hlater

end Assignments

end Criteria
