import Mathlib.Data.List.Nodup
import Criteria.Proofs.Readings
import Criteria.Toml.Document

set_option autoImplicit false

namespace Criteria.Toml

/-- Keys are distinct in every table of a value. -/
inductive Value.Distinct : Value → Prop where
  | string (s : String) : Distinct (.string s)
  | scalar (s : Scalar) : Distinct (.scalar s)
  | array {items : List Value} (h : ∀ v ∈ items, Distinct v) : Distinct (.array items)
  | table {entries : List (String × Value)} (names : (entries.map (·.1)).Nodup)
      (h : ∀ e ∈ entries, Distinct e.2) : Distinct (.table entries)

inductive Node.Distinct : Node → Prop where
  | value {v : Value} (h : v.Distinct) : Distinct (.value v)
  | table (implicit dotted : Bool) {entries : Entries} (names : (entries.map (·.1)).Nodup)
      (h : ∀ e ∈ entries, Distinct e.2) : Distinct (.table implicit dotted entries)
  | tables {elements : List Entries} (names : ∀ entries ∈ elements, (entries.map (·.1)).Nodup)
      (h : ∀ entries ∈ elements, ∀ e ∈ entries, Distinct e.2) : Distinct (.tables elements)

structure Entries.Distinct (entries : Entries) : Prop where
  names : (entries.map (·.1)).Nodup
  nodes : ∀ e ∈ entries, e.2.Distinct

variable {key : String} {node : Node} {entries result : Entries} {elements : List Entries}
  {implicit dotted byKey : Bool} {path : List String} {v : Value}

theorem Value.distinct_table_iff {entries : List (String × Value)} :
    (Value.table entries).Distinct ↔
      (entries.map (·.1)).Nodup ∧ ∀ e ∈ entries, e.2.Distinct := by
  constructor
  · rintro (_ | _ | _ | ⟨hnames, hvalues⟩)
    exact ⟨hnames, hvalues⟩
  · rintro ⟨hnames, hvalues⟩
    exact .table hnames hvalues

theorem Entries.distinct_nil : Entries.Distinct [] := ⟨List.nodup_nil, by simp⟩

theorem Node.distinct_table_iff : (Node.table implicit dotted entries).Distinct ↔ entries.Distinct := by
  constructor
  · rintro (_ | ⟨_, _, hnames, hnodes⟩)
    exact ⟨hnames, hnodes⟩
  · rintro ⟨hnames, hnodes⟩
    exact .table implicit dotted hnames hnodes

theorem Node.distinct_tables_iff :
    (Node.tables elements).Distinct ↔ ∀ entries ∈ elements, entries.Distinct := by
  constructor
  · rintro (_ | _ | ⟨hnames, hnodes⟩) entries hmem
    exact ⟨hnames entries hmem, hnodes entries hmem⟩
  · intro h
    exact .tables (fun entries hmem => (h entries hmem).names) fun entries hmem =>
      (h entries hmem).nodes

theorem keys_setEntry (key : String) (node : Node) (entries : Entries) :
    (setEntry key node entries).map (·.1) =
      if key ∈ entries.map (·.1) then entries.map (·.1) else entries.map (·.1) ++ [key] := by
  induction entries with
  | nil => rfl
  | cons first rest ih =>
    obtain ⟨k, old⟩ := first
    by_cases hkey : k = key
    · simp [setEntry, hkey]
    · rw [setEntry, if_neg hkey, List.map_cons, ih]
      split <;> simp_all [eq_comm]

theorem mem_setEntry {e : String × Node} (h : e ∈ setEntry key node entries) :
    e = (key, node) ∨ e ∈ entries := by
  induction entries with
  | nil => exact .inl (List.mem_singleton.1 h)
  | cons first rest ih =>
    obtain ⟨k, old⟩ := first
    rw [setEntry] at h
    split at h
    · rename_i hkey
      rcases List.mem_cons.1 h with rfl | hrest
      · exact .inl (by rw [hkey])
      · exact .inr (List.mem_cons_of_mem _ hrest)
    · rcases List.mem_cons.1 h with rfl | hrest
      · exact .inr List.mem_cons_self
      · exact (ih hrest).imp_right (List.mem_cons_of_mem _)

theorem setEntry_append {before : Entries} (h : key ∉ before.map (·.1)) (node : Node)
    (rest : Entries) : setEntry key node (before ++ rest) = before ++ setEntry key node rest := by
  induction before with
  | nil => rfl
  | cons first before ih =>
    obtain ⟨k, old⟩ := first
    rw [List.map_cons, List.mem_cons, not_or] at h
    rw [List.cons_append, setEntry, if_neg (Ne.symm h.1), ih h.2, List.cons_append]

theorem setEntry_new (h : key ∉ entries.map (·.1)) (node : Node) :
    setEntry key node entries = entries ++ [(key, node)] := by
  simpa [setEntry] using setEntry_append h node []

theorem setEntry_last (h : key ∉ entries.map (·.1)) (old node : Node) :
    setEntry key node (entries ++ [(key, old)]) = entries ++ [(key, node)] := by
  rw [setEntry_append h, setEntry, if_pos rfl]

theorem Entries.Distinct.set (h : entries.Distinct) (hnode : node.Distinct) :
    Entries.Distinct (setEntry key node entries) := by
  refine ⟨?_, fun e he => ?_⟩
  · rw [keys_setEntry]
    split
    · exact h.names
    · rename_i hnew
      exact List.nodup_append.2 ⟨h.names, List.nodup_singleton _, by
        rintro name hname _ hkey rfl
        exact hnew (List.mem_singleton.1 hkey ▸ hname)⟩
  · rcases mem_setEntry he with rfl | hold
    · exact hnode
    · exact h.nodes e hold

theorem Entries.Distinct.lookup (h : entries.Distinct) (hkey : Keyed.lookup key entries = some node) :
    node.Distinct :=
  h.nodes _ ((Keyed.lookup_eq_some_iff h.names).1 hkey)

/-- What keeps the keys of the table at the end of a path distinct keeps all of them distinct. -/
theorem Entries.Distinct.changeAt {change : Bool → Entries → Option Entries}
    (hchange : ∀ dotted inner result, Entries.Distinct inner → change dotted inner = some result →
      Entries.Distinct result)
    (h : entries.Distinct) (hresult : changeAt byKey change path dotted entries = some result) :
    result.Distinct := by
  induction path generalizing dotted entries result with
  | nil => exact hchange _ _ _ h hresult
  | cons key path ih =>
    rw [Toml.changeAt] at hresult
    split at hresult
    · obtain ⟨inner, hinner, rfl⟩ := Option.map_eq_some_iff.1 hresult
      exact h.set (Node.distinct_table_iff.2 (ih Entries.distinct_nil hinner))
    · cases hresult
    · rename_i hlookup
      split at hresult
      · cases hresult
      · obtain ⟨inner, hinner, rfl⟩ := Option.map_eq_some_iff.1 hresult
        exact h.set (Node.distinct_table_iff.2
          (ih (Node.distinct_table_iff.1 (h.lookup hlookup)) hinner))
    · rename_i elements hlookup
      obtain ⟨last, hlast, rfl⟩ := Option.map_eq_some_iff.1 hresult
      have helements := Node.distinct_tables_iff.1 (h.lookup hlookup)
      have hold : Entries.Distinct (elements.getLast?.getD []) := by
        cases hget : elements.getLast? with
        | none => exact Entries.distinct_nil
        | some old => exact helements old (List.mem_of_getLast? hget)
      refine h.set (Node.distinct_tables_iff.2 fun element hmem => ?_)
      rcases List.mem_append.1 hmem with hbefore | hnew
      · exact helements element (List.dropLast_subset _ hbefore)
      · obtain rfl := List.mem_singleton.1 hnew
        exact ih hold hlast

theorem Entries.Distinct.assign (h : entries.Distinct) (hv : v.Distinct)
    (hresult : assign path key v entries = some result) : result.Distinct := by
  refine h.changeAt ?_ hresult
  intro dotted inner result hinner hchange
  split at hchange
  · cases hchange
  · split at hchange
    · cases hchange
    · obtain rfl := Option.some.inj hchange
      exact hinner.set (.value hv)

theorem Entries.Distinct.openTable (h : entries.Distinct)
    (hresult : openTable path key entries = some result) : result.Distinct := by
  refine h.changeAt ?_ hresult
  intro dotted inner result hinner hchange
  split at hchange
  · obtain rfl := Option.some.inj hchange
    exact hinner.set (Node.distinct_table_iff.2 Entries.distinct_nil)
  · rename_i hlookup
    obtain rfl := Option.some.inj hchange
    exact hinner.set (Node.distinct_table_iff.2 (Node.distinct_table_iff.1 (hinner.lookup hlookup)))
  · cases hchange

theorem Entries.Distinct.openElement (h : entries.Distinct)
    (hresult : openElement path key entries = some result) : result.Distinct := by
  refine h.changeAt ?_ hresult
  intro dotted inner result hinner hchange
  split at hchange
  · obtain rfl := Option.some.inj hchange
    exact hinner.set (Node.distinct_tables_iff.2 (by simp [Entries.distinct_nil]))
  · rename_i elements hlookup
    obtain rfl := Option.some.inj hchange
    have helements := Node.distinct_tables_iff.1 (hinner.lookup hlookup)
    refine hinner.set (Node.distinct_tables_iff.2 fun element hmem => ?_)
    rcases List.mem_append.1 hmem with hold | hnew
    · exact helements element hold
    · obtain rfl := List.mem_singleton.1 hnew
      exact Entries.distinct_nil
  · cases hchange

theorem completeEntries_eq_map (entries : Entries) :
    completeEntries entries = entries.map fun e => (e.1, e.2.complete) := by
  induction entries with
  | nil => rfl
  | cons e rest ih => rw [completeEntries, ih, List.map_cons]

theorem completeElements_eq_map (elements : List Entries) :
    completeElements elements = elements.map fun entries => .table (completeEntries entries) := by
  induction elements with
  | nil => rfl
  | cons entries rest ih => rw [completeElements, ih, List.map_cons]

theorem keys_completeEntries (entries : Entries) :
    (completeEntries entries).map (·.1) = entries.map (·.1) := by
  rw [completeEntries_eq_map, List.map_map]
  rfl

theorem distinct_completeEntries (hnames : (entries.map (·.1)).Nodup)
    (h : ∀ e ∈ entries, e.2.complete.Distinct) : (Value.table (completeEntries entries)).Distinct := by
  refine .table (by rwa [keys_completeEntries]) fun e he => ?_
  rw [completeEntries_eq_map] at he
  obtain ⟨old, hold, rfl⟩ := List.mem_map.1 he
  exact h old hold

theorem Node.Distinct.complete (h : node.Distinct) : node.complete.Distinct := by
  induction h with
  | value hv => exact hv
  | table implicit dotted hnames _ ih => exact distinct_completeEntries hnames ih
  | tables hnames _ ih =>
    rw [Node.complete, completeElements_eq_map]
    refine .array fun v hv => ?_
    obtain ⟨entries, hmem, rfl⟩ := List.mem_map.1 hv
    exact distinct_completeEntries (hnames entries hmem) (ih entries hmem)

theorem Entries.Distinct.complete (h : entries.Distinct) :
    (Value.table (completeEntries entries)).Distinct :=
  distinct_completeEntries h.names fun e he => (h.nodes e he).complete

theorem mem_of_mem_trim {α : Type} {p : α → Bool} {items : List α} {a : α} (h : a ∈ trim p items) :
    a ∈ items := by
  have hdrop := (List.dropWhile_sublist p).subset (List.mem_reverse.1 h)
  exact (List.dropWhile_sublist p).subset (List.mem_reverse.1 hdrop)

theorem mem_of_mem_pieces {α : Type} {separates : α → Bool} {items piece : List α} {a : α}
    (hpiece : piece ∈ pieces separates items) (ha : a ∈ piece) : a ∈ items := by
  induction items generalizing piece with
  | nil =>
    obtain rfl := List.mem_singleton.1 hpiece
    cases ha
  | cons item rest ih =>
    rw [pieces] at hpiece
    split at hpiece
    · obtain rfl := List.mem_singleton.1 hpiece
      exact List.mem_singleton.1 ha ▸ List.mem_cons_self
    · rename_i first others heq
      rw [heq] at ih
      split at hpiece
      · rcases List.mem_cons.1 hpiece with rfl | hrest
        · cases ha
        · exact List.mem_cons_of_mem _ (ih hrest ha)
      · rcases List.mem_cons.1 hpiece with rfl | hrest
        · rcases List.mem_cons.1 ha with rfl | ha
          · exact List.mem_cons_self
          · exact List.mem_cons_of_mem _ (ih List.mem_cons_self ha)
        · exact List.mem_cons_of_mem _ (ih (List.mem_cons_of_mem _ hrest) ha)

def Piece.Distinct (piece : Piece) : Prop := ∀ v, piece = .value v → v.Distinct

theorem mem_of_mem_items? {inner item : List Piece} {items : List (List Piece)} {piece : Piece}
    (h : items? inner = some items) (hitem : item ∈ items) (hpiece : piece ∈ item) :
    piece ∈ inner := by
  have hfound : item ∈ (pieces (Piece.isToken .comma) inner).map (trim Piece.isSpace) := by
    unfold items? at h
    dsimp only at h
    generalize (pieces (Piece.isToken .comma) inner).map (trim Piece.isSpace) = found at h ⊢
    split at h
    · obtain rfl := (Option.ite_none_right_eq_some.1 h).2 |> Option.some.inj
      exact List.dropLast_subset _ hitem
    · obtain rfl := (Option.ite_none_right_eq_some.1 h).2 |> Option.some.inj
      exact hitem
  obtain ⟨part, hpart, rfl⟩ := List.mem_map.1 hfound
  exact mem_of_mem_pieces hpart (mem_of_mem_trim hpiece)

theorem distinct_value? {pieces : List Piece} (hpieces : ∀ piece ∈ pieces, piece.Distinct)
    (h : value? pieces = some v) : v.Distinct := by
  unfold value? at h
  split at h
  · obtain rfl := Option.some.inj h
    exact hpieces _ (List.mem_singleton.2 rfl) _ rfl
  · obtain rfl := Option.some.inj h
    exact .string _
  · obtain ⟨chars, -, h⟩ := Option.bind_eq_some_iff.1 h
    obtain ⟨s, -, h⟩ := Option.bind_eq_some_iff.1 h
    obtain rfl := Option.some.inj h
    exact .scalar s

theorem Entries.Distinct.assignIn {assignment : List Piece} (h : entries.Distinct)
    (hpieces : ∀ piece ∈ assignment, piece.Distinct)
    (hresult : assignIn entries assignment = some result) : result.Distinct := by
  unfold Toml.assignIn at hresult
  dsimp only at hresult
  split at hresult
  · cases hresult
  · rename_i right hright
    obtain ⟨⟨path, key⟩, -, hresult⟩ := Option.bind_eq_some_iff.1 hresult
    obtain ⟨v, hv, hresult⟩ := Option.bind_eq_some_iff.1 hresult
    refine h.assign (distinct_value? (fun piece hpiece => hpieces piece ?_) hv) hresult
    have hmem := mem_of_mem_trim hpiece
    exact List.mem_of_mem_drop (hright ▸ List.mem_cons_of_mem _ hmem)

theorem exists_of_mem_mapM {α β : Type} {f : α → Option β} {items : List α} {results : List β} {b : β}
    (h : items.mapM f = some results) (hb : b ∈ results) : ∃ a ∈ items, f a = some b := by
  induction items generalizing results with
  | nil =>
    obtain rfl := Option.some.inj h
    cases hb
  | cons a rest ih =>
    rw [List.mapM_cons] at h
    obtain ⟨first, hfirst, h⟩ := Option.bind_eq_some_iff.1 h
    obtain ⟨others, hothers, h⟩ := Option.bind_eq_some_iff.1 h
    obtain rfl := Option.some.inj h
    rcases List.mem_cons.1 hb with rfl | hb
    · exact ⟨a, List.mem_cons_self, hfirst⟩
    · obtain ⟨a, ha, hresult⟩ := ih hothers hb
      exact ⟨a, List.mem_cons_of_mem _ ha, hresult⟩

/-- A run of steps keeps what each of them keeps. -/
theorem foldlM_keeps {α β : Type} {P : α → Prop} {step : α → β → Option α} {items : List β} {a b : α}
    (hstep : ∀ item ∈ items, ∀ a b, P a → step a item = some b → P b) (ha : P a)
    (h : items.foldlM step a = some b) : P b := by
  induction items generalizing a with
  | nil => exact Option.some.inj h ▸ ha
  | cons item rest ih =>
    rw [List.foldlM_cons] at h
    obtain ⟨next, hnext, hrest⟩ := Option.bind_eq_some_iff.1 h
    obtain ⟨hitem, hothers⟩ := List.forall_mem_cons.1 hstep
    exact ih hothers (hitem a next ha hnext) hrest

/-- What stands in brackets is read from the inside out, so all of it has distinct keys. -/
theorem distinct_read?_readAll? :
    (∀ (tree : Tree) piece, tree.read? = some piece → piece.Distinct) ∧
    ∀ (trees : List Tree) pieces, readAll? trees = some pieces → ∀ piece ∈ pieces, piece.Distinct := by
  refine Tree.read?.mutual_induct _ _ ?leaf ?square ?curly ?nil ?cons
  case leaf =>
    intro token piece h v hv
    rw [Tree.read?] at h
    obtain rfl := Option.some.inj h
    cases hv
  case square =>
    intro inner ih piece h
    rw [Tree.read?] at h
    obtain ⟨pieces, hpieces, h⟩ := Option.bind_eq_some_iff.1 h
    obtain ⟨items, hitems, h⟩ := Option.bind_eq_some_iff.1 h
    obtain ⟨values, hvalues, h⟩ := Option.bind_eq_some_iff.1 h
    obtain rfl := Option.some.inj h
    rintro _ ⟨⟩
    refine .array fun v hv => ?_
    obtain ⟨item, hitem, hv⟩ := exists_of_mem_mapM hvalues hv
    exact distinct_value? (fun piece hpiece =>
      ih pieces hpieces piece (mem_of_mem_items? hitems hitem hpiece)) hv
  case curly =>
    intro inner ih piece h
    rw [Tree.read?] at h
    obtain ⟨pieces, hpieces, h⟩ := Option.bind_eq_some_iff.1 h
    obtain ⟨items, hitems, h⟩ := Option.bind_eq_some_iff.1 h
    obtain ⟨entries, hentries, h⟩ := Option.bind_eq_some_iff.1 h
    obtain rfl := Option.some.inj h
    rintro _ ⟨⟩
    refine (foldlM_keeps (fun item hitem a b ha hb => ?_) Entries.distinct_nil hentries).complete
    exact ha.assignIn (fun piece hpiece =>
      ih pieces hpieces piece (mem_of_mem_items? hitems hitem hpiece)) hb
  case nil =>
    intro pieces h
    rw [readAll?] at h
    obtain rfl := Option.some.inj h
    simp
  case cons =>
    intro tree trees ihtree ihtrees pieces h
    rw [readAll?] at h
    obtain ⟨piece, hpiece, h⟩ := Option.bind_eq_some_iff.1 h
    obtain ⟨rest, hrest, h⟩ := Option.bind_eq_some_iff.1 h
    obtain rfl := Option.some.inj h
    exact List.forall_mem_cons.2 ⟨ihtree piece hpiece, ihtrees rest hrest⟩

theorem Draft.distinct_line? {d next : Draft} {trees : List Tree} (h : d.root.Distinct)
    (hline : d.line? trees = some next) : next.root.Distinct := by
  unfold Draft.line? at hline
  split at hline
  · exact Option.some.inj hline ▸ h
  · obtain ⟨pieces, -, hline⟩ := Option.bind_eq_some_iff.1 hline
    obtain ⟨⟨path, key⟩, -, hline⟩ := Option.bind_eq_some_iff.1 hline
    obtain ⟨root, hroot, hline⟩ := Option.bind_eq_some_iff.1 hline
    obtain rfl := Option.some.inj hline
    exact h.openElement hroot
  · obtain ⟨pieces, -, hline⟩ := Option.bind_eq_some_iff.1 hline
    obtain ⟨⟨path, key⟩, -, hline⟩ := Option.bind_eq_some_iff.1 hline
    obtain ⟨root, hroot, hline⟩ := Option.bind_eq_some_iff.1 hline
    obtain rfl := Option.some.inj hline
    exact h.openTable hroot
  · obtain ⟨assignment, hassignment, hline⟩ := Option.bind_eq_some_iff.1 hline
    obtain ⟨root, hroot, hline⟩ := Option.bind_eq_some_iff.1 hline
    obtain rfl := Option.some.inj hline
    refine h.changeAt (fun _ inner result hinner hresult => ?_) hroot
    exact hinner.assignIn (distinct_read?_readAll?.2 _ _ hassignment) hresult

/-- Whatever the text, no table of its document has a key twice. -/
theorem distinct_document? {text : String} {entries : List (String × Value)}
    (h : document? text = some entries) : (Value.table entries).Distinct := by
  obtain ⟨tokens, -, h⟩ := Option.bind_eq_some_iff.1 h
  obtain ⟨trees, -, h⟩ := Option.bind_eq_some_iff.1 h
  obtain ⟨draft, hdraft, h⟩ := Option.bind_eq_some_iff.1 h
  obtain rfl := Option.some.inj h
  exact (foldlM_keeps (P := fun d => Entries.Distinct d.root)
    (fun _ _ _ _ hd hline => Draft.distinct_line? hd hline) Entries.distinct_nil hdraft).complete

end Criteria.Toml
