import Mathlib
import Criteria.Proofs.TomlTables
import Criteria.Proofs.TomlTokens

set_option autoImplicit false

namespace Criteria.Toml

inductive Setting where
  | flag (b : Bool)
  | text (s : String)

namespace Setting

def token : Setting → Token
  | .flag b => .bare (if b then "true" else "false")
  | .text s => .text s false

def value : Setting → Value
  | .flag b => .scalar (.boolean b)
  | .text s => .string s

end Setting

/-- A name is written bare if its characters allow it. -/
def nameToken (name : String) : Token :=
  if name ≠ "" ∧ name.toList.all isKeyChar then .bare name else .text name false

inductive Line where
  | header (name : String)
  | setting (key : String) (s : Setting)

namespace Line

def tokens : Line → List Token
  | .header name => [.openSquare, nameToken name, .closeSquare]
  | .setting key s => [nameToken key, .blank " ", .equals, .blank " ", s.token]

def trees : Line → List Tree
  | .header name => [.square [.leaf (nameToken name)]]
  | .setting key s =>
    [.leaf (nameToken key), .leaf (.blank " "), .leaf .equals, .leaf (.blank " "), .leaf s.token]

def write (lines : List Line) : String :=
  String.ofList ((lines.flatMap fun line => line.tokens ++ [.newline]).flatMap Token.chars)

end Line

section Tokens

variable {name : String} {line : Line} {lines : List Line}

theorem nameToken_cases (name : String) :
    (nameToken name = .bare name ∧ name ≠ "" ∧ name.toList.all isKeyChar = true) ∨
      nameToken name = .text name false := by
  unfold nameToken
  split
  · rename_i h
    exact .inl ⟨rfl, h⟩
  · exact .inr rfl

theorem endsBare_of_isKeyChar {c : Char} (h : isKeyChar c = true) : endsBare c = false := by
  by_contra hends
  simp only [endsBare, Bool.not_eq_false, Bool.or_eq_true, decide_eq_true_eq] at hends
  rcases hends with ((((((((((rfl | rfl) | rfl) | rfl) | rfl) | rfl) | rfl) | rfl) | rfl) | rfl) |
    rfl) | rfl <;> revert h <;> decide

theorem legible_bare (hne : name ≠ "") (h : name.toList.all isKeyChar = true) :
    (Token.bare name).Legible := by
  rw [List.all_eq_true] at h
  obtain ⟨first, others, hname⟩ := List.exists_cons_of_ne_nil (mt String.toList_eq_nil_iff.1 hne)
  have hfirst : isKeyChar first = true := h first (hname ▸ List.mem_cons_self)
  refine ⟨⟨first, by simp [hname], ?_, ?_⟩, fun c hc => endsBare_of_isKeyChar (h c hc)⟩
  all_goals
    rintro rfl
    revert hfirst
    decide

theorem legible_nameToken (name : String) : (nameToken name).Legible := by
  rcases nameToken_cases name with ⟨h, hne, hkey⟩ | h
  · exact h ▸ legible_bare hne hkey
  · rw [h]
    rfl

theorem Setting.legible_token (s : Setting) : s.token.Legible := by
  cases s with
  | flag b => cases b <;> exact legible_bare (by decide) rfl
  | text s => rfl

theorem Line.legible_tokens (line : Line) : ∀ t ∈ line.tokens, t.Legible := by
  have hblank : (Token.blank " ").Legible := ⟨by decide, by simp⟩
  cases line with
  | header name =>
    simp only [tokens, List.forall_mem_cons]
    exact ⟨trivial, legible_nameToken name, trivial, by simp⟩
  | setting key s =>
    simp only [tokens, List.forall_mem_cons]
    exact ⟨legible_nameToken key, hblank, trivial, hblank, s.legible_token, by simp⟩

theorem leaves_of_endsBare {t u : Token} {c : Char} (hu : u.chars.head? = some c)
    (hends : endsBare c = true) (hquote : c ≠ '"') (ht : ∀ s, t ≠ .blank s) : t.Leaves u := by
  intro d hd
  obtain rfl := Option.some.inj (hu.symm.trans hd)
  cases t with
  | blank s => exact absurd rfl (ht s)
  | _ => simp [Token.continues, hends, hquote]

theorem nameToken_ne_blank (name s : String) : nameToken name ≠ .blank s := by
  rcases nameToken_cases name with ⟨h, -⟩ | h <;> simp [h]

theorem Setting.token_ne_blank (setting : Setting) (s : String) : setting.token ≠ .blank s := by
  cases setting <;> simp [token]

theorem Setting.blank_leaves_token (s : Setting) : (Token.blank " ").Leaves s.token := by
  intro c hc
  cases s with
  | flag b =>
    cases b <;>
    · obtain rfl := Option.some.inj hc
      rfl
  | text s =>
    obtain rfl := Option.some.inj hc
    rfl

theorem Line.isChain_tokens (line : Line) :
    (line.tokens ++ [Token.newline]).IsChain Token.Leaves := by
  cases line with
  | header name =>
    have hname : (nameToken name).Leaves .closeSquare :=
      leaves_of_endsBare rfl rfl (by decide) (nameToken_ne_blank name)
    have hopen : Token.openSquare.Leaves (nameToken name) := fun c _ => rfl
    have hclose : Token.closeSquare.Leaves .newline := fun c _ => rfl
    simp [tokens, hopen, hname, hclose]
  | setting key s =>
    have hkey : (nameToken key).Leaves (.blank " ") :=
      leaves_of_endsBare rfl rfl (by decide) (nameToken_ne_blank key)
    have hblank : (Token.blank " ").Leaves .equals := by
      rintro c ⟨⟩
      rfl
    have hvalue : s.token.Leaves .newline :=
      leaves_of_endsBare rfl rfl (by decide) s.token_ne_blank
    have hequals : Token.equals.Leaves (.blank " ") := fun c _ => rfl
    simp [tokens, hkey, hblank, hequals, s.blank_leaves_token, hvalue]

/-- Nothing continues a newline, so lines are apart if each of them is written properly. -/
theorem Line.isChain_flatMap (lines : List Line) :
    (lines.flatMap fun line => line.tokens ++ [Token.newline]).IsChain Token.Leaves := by
  induction lines with
  | nil => exact .nil
  | cons line lines ih =>
    rw [List.flatMap_cons, List.isChain_append]
    refine ⟨line.isChain_tokens, ih, fun t ht u _ c _ => ?_⟩
    rw [List.getLast?_concat] at ht
    obtain rfl := Option.some.inj ht
    rfl

theorem head?_chars_nameToken (name : String) : (nameToken name).chars.head? ≠ some '\ufeff' := by
  rcases nameToken_cases name with ⟨h, -, hkey⟩ | h
  · intro hmark
    rw [h] at hmark
    rw [List.all_eq_true] at hkey
    exact absurd (hkey _ (List.mem_of_head? hmark)) (by decide)
  · rw [h]
    exact fun hmark => absurd (Option.some.inj hmark) (by decide)

theorem tokens?_write (lines : List Line) :
    tokens? (Line.write lines) = some (lines.flatMap fun line => line.tokens ++ [.newline]) := by
  have hlegible : ∀ t ∈ lines.flatMap fun line => line.tokens ++ [Token.newline], t.Legible := by
    intro t ht
    obtain ⟨line, -, ht⟩ := List.mem_flatMap.1 ht
    rcases List.mem_append.1 ht with ht | ht
    · exact line.legible_tokens t ht
    · exact List.mem_singleton.1 ht ▸ trivial
  rw [Line.write, tokens?_ofList, State.tokens_flatMap_chars hlegible (Line.isChain_flatMap lines)]
  cases lines with
  | nil => simp
  | cons line lines =>
    cases line with
    | header name => simp [Line.tokens, Token.chars]
    | setting key s =>
      have hne := Token.chars_ne_nil (legible_nameToken key)
      simp only [Line.tokens, List.flatMap_cons, List.cons_append, List.append_assoc]
      rw [List.head?_append_of_ne_nil _ hne]
      exact head?_chars_nameToken key

end Tokens

section Lines

variable {name key : String} {s : Setting} {v : Value} {header : List String} {line : Line}
  {entries result root : Entries} {d : Draft} {done : List Tree} {rest : List Token}

theorem nest_nameToken (name : String) (done : List Tree) (opened : Opened) (rest : List Token) :
    nest done opened (nameToken name :: rest) =
      nest (.leaf (nameToken name) :: done) opened rest := by
  rcases nameToken_cases name with ⟨h, -⟩ | h <;> rw [h] <;> rfl

theorem nest_line (line : Line) (done : List Tree) (rest : List Token) :
    nest done [] (line.tokens ++ .newline :: rest) =
      nest (.leaf .newline :: (line.trees.reverse ++ done)) [] rest := by
  cases line with
  | header name =>
    have hopen : ∀ rest, nest done [] (.openSquare :: rest) = nest [] [(false, done)] rest :=
      fun _ => rfl
    simp only [Line.tokens, Line.trees, List.cons_append, List.nil_append]
    rw [hopen, nest_nameToken]
    rfl
  | setting key s =>
    simp only [Line.tokens, Line.trees, List.cons_append, List.nil_append]
    rw [nest_nameToken]
    cases s <;> rfl

theorem nest_lines (lines : List Line) (done : List Tree) :
    nest done [] (lines.flatMap fun line => line.tokens ++ [.newline]) =
      some (done.reverse ++ lines.flatMap fun line => line.trees ++ [.leaf .newline]) := by
  induction lines generalizing done with
  | nil => simp [nest]
  | cons line lines ih =>
    rw [List.flatMap_cons, List.append_assoc, List.singleton_append, nest_line, ih]
    simp

theorem pieces_ne_nil {α : Type} (separates : α → Bool) (items : List α) :
    pieces separates items ≠ [] := by
  cases items with
  | nil => simp [pieces]
  | cons item rest =>
    rw [pieces]
    split
    · simp
    · split <;> simp

theorem pieces_append {α : Type} {separates : α → Bool} {piece rest : List α} {mark : α}
    (hpiece : ∀ item ∈ piece, separates item = false) (hmark : separates mark = true) :
    pieces separates (piece ++ mark :: rest) = piece :: pieces separates rest := by
  induction piece with
  | nil =>
    obtain ⟨first, others, hrest⟩ := List.exists_cons_of_ne_nil (pieces_ne_nil separates rest)
    simp [pieces, hrest, hmark]
  | cons item piece ih =>
    obtain ⟨hitem, hothers⟩ := List.forall_mem_cons.1 hpiece
    rw [List.cons_append, pieces, ih hothers]
    simp [hitem]

theorem Line.newline_notMem_trees (line : Line) : Tree.leaf .newline ∉ line.trees := by
  intro h
  cases line with
  | header name => simp [trees] at h
  | setting key s =>
    rcases nameToken_cases key with ⟨hkey, -⟩ | hkey <;> cases s <;>
      simp [trees, hkey, Setting.token] at h

/-- Every line ends with a newline, so nothing stands in the last one. -/
theorem pieces_lines {separates : Tree → Bool}
    (h : ∀ tree, separates tree = true ↔ tree = .leaf .newline) (lines : List Line) :
    pieces separates (lines.flatMap fun line => line.trees ++ [.leaf .newline]) =
      lines.map Line.trees ++ [[]] := by
  induction lines with
  | nil => rfl
  | cons line lines ih =>
    have hline : ∀ tree ∈ line.trees, separates tree = false := by
      intro tree htree
      rw [Bool.eq_false_iff]
      exact fun hnewline => line.newline_notMem_trees ((h tree).1 hnewline ▸ htree)
    rw [List.flatMap_cons, List.append_assoc, List.singleton_append,
      pieces_append hline ((h _).2 rfl), ih]
    rfl

theorem keyPart?_nameToken (name : String) : keyPart? [.token (nameToken name)] = some name := by
  rcases nameToken_cases name with ⟨h, -, hkey⟩ | h
  · rw [h, keyPart?, if_pos hkey]
  · rw [h]
    rfl

theorem key?_nameToken (name : String) : key? [.token (nameToken name)] = some ([], name) := by
  have hpieces : pieces (Piece.isToken .dot) [.token (nameToken name)] =
      [[.token (nameToken name)]] := by
    rcases nameToken_cases name with ⟨h, -⟩ | h <;> rw [h] <;> rfl
  have htrim : trim Piece.isBlank [.token (nameToken name)] = [.token (nameToken name)] := by
    rcases nameToken_cases name with ⟨h, -⟩ | h <;> rw [h] <;> rfl
  simp [key?, hpieces, htrim, keyPart?_nameToken, depthLimit]

theorem value?_token (s : Setting) : value? [.token s.token] = some s.value := by
  cases s with
  | flag b => cases b <;> rfl
  | text s => rfl

theorem line?_header (name : String) (d : Draft) :
    d.line? (Line.header name).trees = (openTable [] name d.root).map (⟨·, [name]⟩) := by
  have hline : d.line? (Line.header name).trees = (readAll? [.leaf (nameToken name)]).bind
      fun inner => (key? inner).bind fun parts => (openTable parts.1 parts.2 d.root).bind
        fun root => some ⟨root, parts.1 ++ [parts.2]⟩ := rfl
  have hread : readAll? [.leaf (nameToken name)] = some [.token (nameToken name)] := rfl
  rw [hline, hread, Option.bind_some, key?_nameToken, Option.bind_some, Option.map_eq_bind]
  rfl

theorem assignIn_setting (key : String) (s : Setting) (entries : Entries) :
    assignIn entries [.token (nameToken key), .token (.blank " "), .token .equals,
      .token (.blank " "), .token s.token] = assign [] key s.value entries := by
  have hleft : trim Piece.isSpace [.token (nameToken key), .token (.blank " ")] =
      [.token (nameToken key)] := by
    rcases nameToken_cases key with ⟨h, -⟩ | h <;> rw [h] <;> rfl
  have hright : trim Piece.isSpace [.token (.blank " "), .token s.token] = [.token s.token] := by
    cases s <;> rfl
  have hsplit : [Piece.token (nameToken key), .token (.blank " "), .token .equals,
      .token (.blank " "), .token s.token].takeWhile (fun piece => !piece.isToken .equals) =
      [.token (nameToken key), .token (.blank " ")] := by
    rcases nameToken_cases key with ⟨h, -⟩ | h <;> rw [h] <;> rfl
  simp only [assignIn, hsplit, List.length_cons, List.length_nil, List.drop_succ_cons, List.drop_zero]
  rw [hleft, hright, key?_nameToken, value?_token]
  rfl

theorem line?_setting (key : String) (s : Setting) (d : Draft) :
    d.line? (Line.setting key s).trees =
      (changeAt false (fun _ inner => assign [] key s.value inner) d.header false d.root).map
        (⟨·, d.header⟩) := by
  have hline : d.line? (Line.setting key s).trees = (readAll? (Line.setting key s).trees).bind
      fun assignment => (changeAt false (fun _ inner => assignIn inner assignment) d.header false
        d.root).bind fun root => some ⟨root, d.header⟩ := by
    rcases nameToken_cases key with ⟨h, -⟩ | h <;> rw [Line.trees, h] <;> cases s <;> rfl
  have hread : readAll? (Line.setting key s).trees = some [.token (nameToken key),
      .token (.blank " "), .token .equals, .token (.blank " "), .token s.token] := rfl
  rw [hline, hread, Option.bind_some]
  simp only [assignIn_setting]
  rw [Option.map_eq_bind]
  rfl

def Line.run (lines : List Line) (d : Draft) : Option Draft :=
  (lines.map Line.trees).foldlM Draft.line? d

theorem Line.run_append (lines more : List Line) (d : Draft) :
    run (lines ++ more) d = (run lines d).bind (run more) := by
  rw [run, List.map_append, List.foldlM_append]
  rfl

theorem Line.document?_write (lines : List Line) :
    document? (Line.write lines) = (Line.run lines ⟨[], []⟩).map fun d => completeEntries d.root := by
  have hrun : (lines.map Line.trees ++ [[]]).foldlM Draft.line? ⟨[], []⟩ = Line.run lines ⟨[], []⟩ := by
    rw [List.foldlM_append, Line.run]
    cases (lines.map Line.trees).foldlM Draft.line? ⟨[], []⟩ <;> rfl
  simp only [document?, tokens?_write, nest_lines, Option.bind_eq_bind, Option.bind_some,
    List.reverse_nil, List.nil_append]
  rw [pieces_lines, hrun, Option.map_eq_bind]
  · rfl
  · intro tree
    split <;> simp_all

end Lines

section Tables

variable {key name : String} {v : Value} {entries inner result root done : Entries}

theorem nodup_append_new (h : (entries.map (·.1)).Nodup) {node : Node} :
    ((entries ++ [(key, node)]).map (·.1)).Nodup ↔ key ∉ entries.map (·.1) := by
  rw [List.map_append, List.nodup_append_comm]
  exact List.nodup_cons.trans (and_iff_left h)

theorem assign_nil_eq_some_iff :
    assign [] key v entries = some result ↔
      key ∉ entries.map (·.1) ∧ result = entries ++ [(key, .value v)] := by
  simp only [assign, changeAt, List.isEmpty_nil, Bool.false_eq_true, ↓reduceIte, Keyed.lookup_isSome_iff]
  split
  · simp_all
  · rename_i hnew
    rw [setEntry_new hnew]
    simp [hnew, eq_comm]

/-- A change of the table that a header opened, and of nothing else. -/
theorem changeAt_last (h : name ∉ done.map (·.1)) (change : Bool → Entries → Option Entries) :
    changeAt false change [name] false (done ++ [(name, .table false false inner)]) =
      (change false inner).map fun inner => done ++ [(name, .table false false inner)] := by
  rw [changeAt, Keyed.lookup_middle h]
  simp only [Bool.false_and, Bool.false_eq_true, ↓reduceIte, Bool.or_false, changeAt, setEntry_last h]

theorem openTable_nil_eq_some_iff (hroot : ∀ name old, (name, Node.table true false old) ∉ root)
    (hnames : (root.map (·.1)).Nodup) :
    openTable [] name root = some result ↔
      name ∉ root.map (·.1) ∧ result = root ++ [(name, .table false false [])] := by
  rw [openTable, changeAt]
  cases hlookup : Keyed.lookup name root with
  | none =>
    have hnew : name ∉ root.map (·.1) := by
      rw [← Keyed.lookup_isSome_iff, hlookup]
      simp
    simp [setEntry_new hnew, hnew, eq_comm]
  | some node =>
    have hold : name ∈ root.map (·.1) := by
      rw [← Keyed.lookup_isSome_iff, hlookup]
      rfl
    simp only [hold, not_true_eq_false, false_and, iff_false]
    split
    · simp_all
    · rename_i old hsome
      obtain rfl := Option.some.inj hsome
      exact absurd ((Keyed.lookup_eq_some_iff hnames).1 hlookup) (hroot name old)
    · simp

end Tables

structure Sheet where
  settings : List (String × Setting)
  sections : List (String × List (String × Setting))

namespace Sheet

def settingLines (settings : List (String × Setting)) : List Line :=
  settings.map fun e => .setting e.1 e.2

def sectionLines (sections : List (String × List (String × Setting))) : List Line :=
  sections.flatMap fun e => .header e.1 :: settingLines e.2

def write (sheet : Sheet) : String :=
  Line.write (settingLines sheet.settings ++ sectionLines sheet.sections)

def settingEntries (settings : List (String × Setting)) : List (String × Value) :=
  settings.map fun e => (e.1, e.2.value)

def entries (sheet : Sheet) : List (String × Value) :=
  settingEntries sheet.settings ++ sheet.sections.map fun e => (e.1, .table (settingEntries e.2))

structure Distinct (sheet : Sheet) : Prop where
  names : (sheet.settings.map (·.1) ++ sheet.sections.map (·.1)).Nodup
  keys : ∀ e ∈ sheet.sections, (e.2.map (·.1)).Nodup

def settingNodes (settings : List (String × Setting)) : Entries :=
  settings.map fun e => (e.1, .value e.2.value)

def sectionNodes (sections : List (String × List (String × Setting))) : Entries :=
  sections.map fun e => (e.1, .table false false (settingNodes e.2))

variable {name : String} {inner result root : Entries}
  {header : List String} {settings : List (String × Setting)}
  {sections : List (String × List (String × Setting))} {d : Draft}

@[simp]
theorem keys_settingNodes (settings : List (String × Setting)) :
    (settingNodes settings).map (·.1) = settings.map (·.1) := by
  rw [settingNodes, List.map_map]
  rfl

@[simp]
theorem keys_sectionNodes (sections : List (String × List (String × Setting))) :
    (sectionNodes sections).map (·.1) = sections.map (·.1) := by
  rw [sectionNodes, List.map_map]
  rfl

/-- Settings go into the table that is open; `place` puts that table where the header says. -/
theorem run_settings_eq_some_iff {place : Entries → Entries}
    (hplace : ∀ change inner, changeAt false change header false (place inner) =
      (change false inner).map place)
    (hinner : (inner.map (·.1)).Nodup) :
    Line.run (settingLines settings) ⟨place inner, header⟩ = some d ↔
      ((inner ++ settingNodes settings).map (·.1)).Nodup ∧
        d = ⟨place (inner ++ settingNodes settings), header⟩ := by
  induction settings generalizing inner with
  | nil => simp [Line.run, settingLines, settingNodes, hinner, pure, eq_comm]
  | cons e rest ih =>
    obtain ⟨key, s⟩ := e
    have hstep : Line.run (settingLines ((key, s) :: rest)) ⟨place inner, header⟩ =
        (assign [] key s.value inner).bind fun next =>
          Line.run (settingLines rest) ⟨place next, header⟩ := by
      rw [Line.run, settingLines, List.map_cons, List.map_cons, List.foldlM_cons, line?_setting, hplace]
      cases assign [] key s.value inner <;> rfl
    have hnodes : settingNodes ((key, s) :: rest) = (key, .value s.value) :: settingNodes rest := rfl
    rw [hstep, Option.bind_eq_some_iff]
    constructor
    · rintro ⟨next, hnext, hrun⟩
      obtain ⟨hnew, rfl⟩ := assign_nil_eq_some_iff.1 hnext
      obtain ⟨hnames, rfl⟩ := (ih ((nodup_append_new hinner).2 hnew)).1 hrun
      rw [List.append_assoc] at hnames
      exact ⟨hnames, by rw [hnodes, List.append_assoc]; rfl⟩
    · rintro ⟨hnames, rfl⟩
      rw [hnodes, List.append_cons] at hnames
      have hnext : ((inner ++ [(key, Node.value s.value)]).map (·.1)).Nodup :=
        List.Nodup.of_append_left (List.map_append ▸ hnames)
      have hnew : key ∉ inner.map (·.1) := (nodup_append_new hinner).1 hnext
      refine ⟨_, assign_nil_eq_some_iff.2 ⟨hnew, rfl⟩, (ih hnext).2 ⟨hnames, ?_⟩⟩
      rw [hnodes, List.append_cons]

theorem run_section_eq_some_iff (hroot : ∀ name old, (name, Node.table true false old) ∉ root)
    (hnames : (root.map (·.1)).Nodup) :
    Line.run (.header name :: settingLines settings) ⟨root, header⟩ = some d ↔
      name ∉ root.map (·.1) ∧ (settings.map (·.1)).Nodup ∧
        d = ⟨root ++ [(name, .table false false (settingNodes settings))], [name]⟩ := by
  have hrun : Line.run (.header name :: settingLines settings) ⟨root, header⟩ =
      (openTable [] name root).bind fun next => Line.run (settingLines settings) ⟨next, [name]⟩ := by
    rw [Line.run, List.map_cons, List.foldlM_cons, line?_header]
    cases openTable [] name root <;> rfl
  have hsettings (hnew : name ∉ root.map (·.1)) :
      Line.run (settingLines settings) ⟨root ++ [(name, .table false false [])], [name]⟩ = some d ↔
        (settings.map (·.1)).Nodup ∧
          d = ⟨root ++ [(name, .table false false (settingNodes settings))], [name]⟩ := by
    have hplace : ∀ change inner,
        changeAt false change [name] false (root ++ [(name, .table false false inner)]) =
          (change false inner).map fun inner => root ++ [(name, .table false false inner)] :=
      fun change inner => changeAt_last hnew change
    have hnil : (([] : Entries).map (·.1)).Nodup := .nil
    exact (run_settings_eq_some_iff hplace hnil).trans (by simp)
  rw [hrun, Option.bind_eq_some_iff]
  constructor
  · rintro ⟨next, hnext, hd⟩
    obtain ⟨hnew, rfl⟩ := (openTable_nil_eq_some_iff hroot hnames).1 hnext
    exact ⟨hnew, (hsettings hnew).1 hd⟩
  · rintro ⟨hnew, hd⟩
    exact ⟨_, (openTable_nil_eq_some_iff hroot hnames).2 ⟨hnew, rfl⟩, (hsettings hnew).2 hd⟩

theorem run_sections_eq_some_iff (hroot : ∀ name old, (name, Node.table true false old) ∉ root)
    (hnames : (root.map (·.1)).Nodup) :
    (Line.run (sectionLines sections) ⟨root, header⟩).map Draft.root = some result ↔
      ((root ++ sectionNodes sections).map (·.1)).Nodup ∧
        (∀ e ∈ sections, (e.2.map (·.1)).Nodup) ∧ result = root ++ sectionNodes sections := by
  induction sections generalizing root header with
  | nil => simp [Line.run, sectionLines, sectionNodes, hnames, pure, eq_comm]
  | cons e rest ih =>
    obtain ⟨name, settings⟩ := e
    let node := Node.table false false (settingNodes settings)
    have hlines : sectionLines ((name, settings) :: rest) =
        (.header name :: settingLines settings) ++ sectionLines rest := rfl
    have hnodes : root ++ sectionNodes ((name, settings) :: rest) =
        root ++ [(name, node)] ++ sectionNodes rest := List.append_cons _ _ _
    have hroot' : ∀ other old, (other, Node.table true false old) ∉ root ++ [(name, node)] := by
      intro other old hmem
      rcases List.mem_append.1 hmem with hold | hlast
      · exact hroot other old hold
      · simp [node] at hlast
    rw [hlines, Line.run_append, hnodes, List.forall_mem_cons, Option.map_bind, Option.bind_eq_some_iff]
    constructor
    · rintro ⟨d, hd, hresult⟩
      obtain ⟨hnew, hkeys, rfl⟩ := (run_section_eq_some_iff hroot hnames).1 hd
      obtain ⟨hnodup, hrest, rfl⟩ := (ih hroot' ((nodup_append_new hnames).2 hnew)).1 hresult
      exact ⟨hnodup, ⟨hkeys, hrest⟩, rfl⟩
    · rintro ⟨hnodup, ⟨hkeys, hrest⟩, rfl⟩
      have hnext : ((root ++ [(name, node)]).map (·.1)).Nodup :=
        List.Nodup.of_append_left (List.map_append ▸ hnodup)
      exact ⟨_, (run_section_eq_some_iff hroot hnames).2 ⟨(nodup_append_new hnames).1 hnext, hkeys, rfl⟩,
        (ih hroot' hnext).2 ⟨hnodup, hrest, rfl⟩⟩

theorem completeEntries_nodes (sheet : Sheet) :
    completeEntries (settingNodes sheet.settings ++ sectionNodes sheet.sections) = sheet.entries := by
  have hsettings : ∀ settings, completeEntries (settingNodes settings) = settingEntries settings := by
    intro settings
    rw [completeEntries_eq_map, settingNodes, List.map_map]
    rfl
  have hsections : completeEntries (sectionNodes sheet.sections) =
      sheet.sections.map fun e => (e.1, .table (settingEntries e.2)) := by
    rw [completeEntries_eq_map, sectionNodes, List.map_map]
    refine List.map_congr_left fun e _ => ?_
    simp [Node.complete, hsettings]
  rw [Sheet.entries, ← hsections, ← hsettings]
  simp only [completeEntries_eq_map, List.map_append]

/-- A written sheet is read as the document it stands for, and if it names anything twice it is not
read at all. -/
theorem document?_write_eq_some_iff (sheet : Sheet) {entries : List (String × Value)} :
    document? sheet.write = some entries ↔ sheet.Distinct ∧ entries = sheet.entries := by
  have hsettings {d : Draft} : Line.run (settingLines sheet.settings) ⟨[], []⟩ = some d ↔
      (sheet.settings.map (·.1)).Nodup ∧ d = ⟨settingNodes sheet.settings, []⟩ := by
    have hplace : ∀ change inner, changeAt false change [] false (id inner) =
        (change false inner).map id := fun change inner => by simp [changeAt]
    have hnil : (([] : Entries).map (·.1)).Nodup := .nil
    exact (run_settings_eq_some_iff hplace hnil).trans (by simp)
  have hroot : ∀ name old, (name, Node.table true false old) ∉ settingNodes sheet.settings := by
    simp [settingNodes]
  have hsections {entries : List (String × Value)} (hnames : (sheet.settings.map (·.1)).Nodup) :
      (Line.run (sectionLines sheet.sections) ⟨settingNodes sheet.settings, []⟩).map
          (fun d => completeEntries d.root) = some entries ↔
        sheet.Distinct ∧ entries = sheet.entries := by
    have hmap : ∀ x : Option Draft, x.map (fun d => completeEntries d.root) =
        (x.map Draft.root).map completeEntries := fun x => (Option.map_map _ _ x).symm
    have hnodes : ((settingNodes sheet.settings).map (·.1)).Nodup := by simpa using hnames
    simp only [hmap, Option.map_eq_some_iff (f := completeEntries),
      run_sections_eq_some_iff hroot hnodes, List.map_append, keys_settingNodes, keys_sectionNodes]
    constructor
    · rintro ⟨_, ⟨hnames, hkeys, rfl⟩, rfl⟩
      exact ⟨⟨hnames, hkeys⟩, completeEntries_nodes sheet⟩
    · rintro ⟨⟨hnames, hkeys⟩, rfl⟩
      exact ⟨_, ⟨hnames, hkeys, rfl⟩, completeEntries_nodes sheet⟩
  rw [write, Line.document?_write, Line.run_append, Option.map_bind, Option.bind_eq_some_iff]
  constructor
  · rintro ⟨d, hd, hentries⟩
    obtain ⟨hnames, rfl⟩ := hsettings.1 hd
    exact (hsections hnames).1 hentries
  · intro h
    have hnames := List.Nodup.of_append_left h.1.names
    exact ⟨_, hsettings.2 ⟨hnames, rfl⟩, (hsections hnames).2 h⟩

end Sheet

end Criteria.Toml
