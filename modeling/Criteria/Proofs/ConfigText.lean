import Criteria.Config
import Criteria.Proofs.TomlText

set_option autoImplicit false

namespace Criteria.Config

variable {α : Type} {key name : String} {entries inner : List (String × Toml.Value)} {a default : α}
  {read? : Toml.Value → Option α} {Reads : Toml.Value → α → Prop} {v : Toml.Value} {c : Config}
  {text : String}

def Gives (key : String) (Reads : Toml.Value → α → Prop) (default : α)
    (entries : List (String × Toml.Value)) (a : α) : Prop :=
  (∀ v, (key, v) ∈ entries → Reads v a) ∧ ((∀ v, (key, v) ∉ entries) → a = default)

inductive ReadsCaching : Toml.Value → Bool → Prop where
  | flag (b : Bool) : ReadsCaching (.scalar (.boolean b)) b

inductive ReadsDialect : Toml.Value → Dialect → Prop where
  | name (d : Dialect) : ReadsDialect (.string d.name) d
  | table (d : Dialect) : ReadsDialect (.table [(d.name, .table [])]) d
  | array (d : Dialect) : ReadsDialect (.table [(d.name, .array [])]) d

/-- A section is a table that names nothing but its setting, or an array that begins with it. -/
inductive ReadsSection (key : String) (Reads : Toml.Value → α → Prop) (default : α) :
    Toml.Value → α → Prop where
  | table {entries : List (String × Toml.Value)} {a : α} (known : ∀ e ∈ entries, e.1 = key)
      (gives : Gives key Reads default entries a) :
      ReadsSection key Reads default (.table entries) a
  | empty : ReadsSection key Reads default (.array []) default
  | first {v : Toml.Value} {a : α} (rest : List Toml.Value) (reads : Reads v a) :
      ReadsSection key Reads default (.array (v :: rest)) a

/-- What a document says of a configuration. -/
structure Describes (entries : List (String × Toml.Value)) (c : Config) : Prop where
  known : ∀ e ∈ entries, e.1 = "cache" ∨ e.1 = "update"
  caching : Gives "cache" (ReadsSection "enabled" ReadsCaching true) true entries c.caching
  dialect : Gives "update" (ReadsSection "dialect" ReadsDialect .mysql) .mysql entries c.dialect

theorem cachingOf?_eq_some_iff {b : Bool} : cachingOf? v = some b ↔ ReadsCaching v b := by
  constructor
  · intro h
    unfold cachingOf? at h
    split at h
    · exact Option.some.inj h ▸ .flag _
    · cases h
  · rintro ⟨b⟩
    rfl

theorem ofName?_eq_some_iff {d : Dialect} : Dialect.ofName? name = some d ↔ name = d.name := by
  constructor
  · intro h
    unfold Dialect.ofName? at h
    split at h <;> cases h <;> rfl
  · rintro rfl
    cases d <;> rfl

theorem dialectOf?_eq_some_iff {d : Dialect} : dialectOf? v = some d ↔ ReadsDialect v d := by
  constructor
  · intro h
    unfold dialectOf? at h
    split at h
    · exact ofName?_eq_some_iff.1 h ▸ .name d
    · exact ofName?_eq_some_iff.1 h ▸ .table d
    · exact ofName?_eq_some_iff.1 h ▸ .array d
    · cases h
  · rintro (_ | _ | _) <;> exact ofName?_eq_some_iff.2 rfl

theorem settingOf?_eq_some_iff
    (hread : ∀ v, (key, v) ∈ entries → ∀ a, read? v = some a ↔ Reads v a)
    (hnames : (entries.map (·.1)).Nodup) :
    settingOf? key read? default entries = some a ↔ Gives key Reads default entries a := by
  unfold settingOf? Gives
  cases hlookup : Keyed.lookup key entries with
  | none =>
    have hnone : ∀ v, (key, v) ∉ entries := by
      intro v hv
      cases hlookup.symm.trans ((Keyed.lookup_eq_some_iff hnames).2 hv)
    simp [hnone, eq_comm]
  | some v =>
    have hmem := (Keyed.lookup_eq_some_iff hnames).1 hlookup
    refine (hread v hmem a).trans ⟨fun h => ⟨?_, fun hnone => absurd hmem (hnone v)⟩, fun h => h.1 v hmem⟩
    intro w hw
    obtain rfl := Option.some.inj (hlookup.symm.trans ((Keyed.lookup_eq_some_iff hnames).2 hw))
    exact h

theorem knows_iff {keys : List String} : knows keys entries = true ↔ ∀ e ∈ entries, e.1 ∈ keys := by
  simp [knows]

theorem sectionOf?_eq_some_iff (hread : ∀ v a, read? v = some a ↔ Reads v a) (hv : v.Distinct) :
    sectionOf? key read? default v = some a ↔ ReadsSection key Reads default v a := by
  unfold sectionOf?
  split
  · rename_i entries
    have hnames : (entries.map (·.1)).Nodup := by
      cases hv with
      | table hnames _ => exact hnames
    rw [Option.ite_none_right_eq_some, settingOf?_eq_some_iff (fun v _ => hread v) hnames, knows_iff]
    constructor
    · rintro ⟨hknown, hgives⟩
      exact .table (fun e he => List.mem_singleton.1 (hknown e he)) hgives
    · rintro (⟨hknown, hgives⟩ | _ | _)
      exact ⟨fun e he => List.mem_singleton.2 (hknown e he), hgives⟩
  · constructor
    · intro h
      exact Option.some.inj h ▸ .empty
    · rintro (_ | _ | _)
      rfl
  · rename_i v rest
    constructor
    · exact fun h => .first rest ((hread v a).1 h)
    · rintro (_ | _ | ⟨_, h⟩)
      exact (hread v a).2 h
  · rename_i htable hempty hfirst
    constructor
    · rintro ⟨⟩
    · rintro (_ | _ | _)
      · exact absurd rfl (htable _)
      · exact absurd rfl hempty
      · exact absurd rfl (hfirst _ _)

theorem ofToml?_eq_some_iff_of_document? (h : Toml.document? text = some entries) :
    ofToml? text = some c ↔ Describes entries c := by
  obtain ⟨hnames, hvalues⟩ := Toml.Value.distinct_table_iff.1 (Toml.distinct_document? h)
  have hcaching (b : Bool) : settingOf? "cache" (sectionOf? "enabled" cachingOf? true) true entries =
      some b ↔ Gives "cache" (ReadsSection "enabled" ReadsCaching true) true entries b :=
    settingOf?_eq_some_iff (fun v hv a => sectionOf?_eq_some_iff
      (fun _ _ => cachingOf?_eq_some_iff) (hvalues _ hv)) hnames
  have hdialect (d : Dialect) :
      settingOf? "update" (sectionOf? "dialect" dialectOf? .mysql) .mysql entries = some d ↔
        Gives "update" (ReadsSection "dialect" ReadsDialect .mysql) .mysql entries d :=
    settingOf?_eq_some_iff (fun v hv a => sectionOf?_eq_some_iff
      (fun _ _ => dialectOf?_eq_some_iff) (hvalues _ hv)) hnames
  have hread : ofToml? text = if knows ["cache", "update"] entries then
      (settingOf? "cache" (sectionOf? "enabled" cachingOf? true) true entries).bind fun caching =>
        (settingOf? "update" (sectionOf? "dialect" dialectOf? .mysql) .mysql entries).bind
          fun dialect => some ⟨caching, dialect⟩
      else none := by
    rw [ofToml?, h]
    cases hknows : knows ["cache", "update"] entries <;> simp [hknows]
  rw [hread, Option.ite_none_right_eq_some, knows_iff]
  constructor
  · rintro ⟨hknown, hresult⟩
    obtain ⟨caching, hc, hresult⟩ := Option.bind_eq_some_iff.1 hresult
    obtain ⟨dialect, hd, hresult⟩ := Option.bind_eq_some_iff.1 hresult
    obtain rfl := Option.some.inj hresult
    exact ⟨fun e he => by simpa using hknown e he, (hcaching caching).1 hc, (hdialect dialect).1 hd⟩
  · rintro ⟨hknown, hc, hd⟩
    refine ⟨fun e he => by simpa using hknown e he, ?_⟩
    rw [(hcaching c.caching).2 hc, (hdialect c.dialect).2 hd]
    rfl

/-- The texts that are read, and the configuration that each of them means. -/
theorem ofToml?_eq_some_iff :
    ofToml? text = some c ↔ ∃ entries, Toml.document? text = some entries ∧ Describes entries c := by
  constructor
  · intro h
    obtain ⟨entries, hdocument, -⟩ := Option.bind_eq_some_iff.1 h
    exact ⟨entries, hdocument, (ofToml?_eq_some_iff_of_document? hdocument).1 h⟩
  · rintro ⟨entries, hdocument, hdescribes⟩
    exact (ofToml?_eq_some_iff_of_document? hdocument).2 hdescribes

/-- A text that names anything else is refused. -/
theorem ofToml?_eq_none_of_unknown (hdocument : Toml.document? text = some entries)
    (hv : (name, v) ∈ entries) (hname : name ∉ ["cache", "update"]) : ofToml? text = none := by
  rw [Option.eq_none_iff_forall_ne_some]
  intro c hread
  have hdescribes := (ofToml?_eq_some_iff_of_document? hdocument).1 hread
  exact hname (by simpa using hdescribes.known _ hv)

theorem ReadsSection.known (h : ReadsSection key Reads default (.table inner) a) :
    ∀ e ∈ inner, e.1 = key := by
  cases h with
  | table known _ => exact known

/-- A text that names anything else in one of its sections is refused. -/
theorem ofToml?_eq_none_of_unknown_setting (hdocument : Toml.document? text = some entries)
    (hsection : (name, .table inner) ∈ entries) (hv : (key, v) ∈ inner)
    (hkey : (name, key) ∉ [("cache", "enabled"), ("update", "dialect")]) : ofToml? text = none := by
  rw [Option.eq_none_iff_forall_ne_some]
  intro c hread
  have hdescribes := (ofToml?_eq_some_iff_of_document? hdocument).1 hread
  rcases hdescribes.known _ hsection with hname | hname
  · obtain rfl : name = "cache" := hname
    obtain rfl : key = "enabled" := (hdescribes.caching.1 _ hsection).known _ hv
    simp at hkey
  · obtain rfl : name = "update" := hname
    obtain rfl : key = "dialect" := (hdescribes.dialect.1 _ hsection).known _ hv
    simp at hkey

/-- What a text does not name has its default. -/
theorem eq_default_of_unnamed (hdocument : Toml.document? text = some entries)
    (hread : ofToml? text = some c) :
    ((∀ v, ("cache", v) ∉ entries) → c.caching = true) ∧
      ((∀ v, ("update", v) ∉ entries) → c.dialect = .mysql) := by
  have hdescribes := (ofToml?_eq_some_iff_of_document? hdocument).1 hread
  exact ⟨hdescribes.caching.2, hdescribes.dialect.2⟩

/-- A sheet means a configuration if it names nothing twice and describes it. -/
theorem ofToml?_write_eq_some_iff (sheet : Toml.Sheet) :
    ofToml? sheet.write = some c ↔ sheet.Distinct ∧ Describes sheet.entries c := by
  rw [ofToml?_eq_some_iff]
  simp only [Toml.Sheet.document?_write_eq_some_iff]
  constructor
  · rintro ⟨_, ⟨hdistinct, rfl⟩, hdescribes⟩
    exact ⟨hdistinct, hdescribes⟩
  · rintro ⟨hdistinct, hdescribes⟩
    exact ⟨_, ⟨hdistinct, rfl⟩, hdescribes⟩

def changes (caching : Option Bool) (dialect : Option Dialect) : Toml.Sheet where
  settings := []
  sections := (caching.map fun b => ("cache", [("enabled", .flag b)])).toList ++
    (dialect.map fun d => ("update", [("dialect", .text d.name)])).toList

theorem mem_entries_changes {caching : Option Bool} {dialect : Option Dialect} :
    (name, v) ∈ (changes caching dialect).entries ↔
      (∃ b, caching = some b ∧ name = "cache" ∧ v = .table [("enabled", .scalar (.boolean b))]) ∨
      ∃ d, dialect = some d ∧ name = "update" ∧ v = .table [("dialect", .string d.name)] := by
  cases caching <;> cases dialect <;>
    simp [changes, Toml.Sheet.entries, Toml.Sheet.settingEntries, Toml.Setting.value]

/-- A section that consists of its setting means what the setting means. -/
theorem ReadsSection.singleton (h : Reads v a) :
    ReadsSection key Reads default (.table [(key, v)]) a := by
  refine .table (by simp) ⟨fun w hw => ?_, fun hnone => absurd List.mem_cons_self (hnone v)⟩
  obtain rfl : w = v := by simpa using hw
  exact h

theorem describes_changes (caching : Option Bool) (dialect : Option Dialect) :
    Describes (changes caching dialect).entries ⟨caching.getD true, dialect.getD .mysql⟩ where
  known e he := by
    rcases mem_entries_changes.1 he with ⟨b, -, hname, -⟩ | ⟨d, -, hname, -⟩
    · exact .inl hname
    · exact .inr hname
  caching := by
    refine ⟨fun v hv => ?_, fun hnone => ?_⟩
    · rcases mem_entries_changes.1 hv with ⟨b, rfl, -, rfl⟩ | ⟨d, -, hname, -⟩
      · exact .singleton (.flag b)
      · simp at hname
    · cases caching with
      | none => rfl
      | some b => exact absurd (mem_entries_changes.2 (.inl ⟨b, rfl, rfl, rfl⟩)) (hnone _)
  dialect := by
    refine ⟨fun v hv => ?_, fun hnone => ?_⟩
    · rcases mem_entries_changes.1 hv with ⟨b, -, hname, -⟩ | ⟨d, rfl, -, rfl⟩
      · simp at hname
      · exact .singleton (.name d)
    · cases dialect with
      | none => rfl
      | some d => exact absurd (mem_entries_changes.2 (.inr ⟨d, rfl, rfl, rfl⟩)) (hnone _)

/-- A text needs to name only what it changes. -/
theorem ofToml?_changes (caching : Option Bool) (dialect : Option Dialect) :
    ofToml? (changes caching dialect).write =
      some ⟨caching.getD true, dialect.getD .mysql⟩ := by
  refine (ofToml?_write_eq_some_iff _).2 ⟨⟨?_, ?_⟩, describes_changes caching dialect⟩
  · cases caching <;> cases dialect <;> simp [changes]
  · cases caching <;> cases dialect <;> simp [changes]

example : (changes none (some .sqlite)).write = "[update]\ndialect = \"sqlite\"\n" := by
  decide

end Criteria.Config
