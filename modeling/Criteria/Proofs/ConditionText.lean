import Mathlib
import Criteria.Condition.Printer
import Criteria.Proofs.TextSplitting

/-!
What the text of a condition tells. A sketch keeps the nodes of a condition and of each leaf the column,
the kind and the texts of its values. Conditions with one text have one sketch, as long as no node has
less than two children, columns are identifiers and no value is written as JSON; a text among the
values cannot pass for a part of the condition.
-/

set_option autoImplicit false

namespace Criteria

/-- The kinds of leaves. Comparisons for and against null are kinds of their own. -/
inductive LeafKind where
  | isNull
  | isNotNull
  | compare (op : Comparison)
  | among
  | notAmong
deriving DecidableEq

namespace LeafKind

def keyword : LeafKind → String
  | isNull => " IS NULL"
  | isNotNull => " IS NOT NULL"
  | compare op => " " ++ op.symbol ++ " "
  | among => " IN "
  | notAmong => " NOT IN "

def all : List LeafKind :=
  [isNull, isNotNull, compare .eq, compare .ne, compare .lt, compare .lte, compare .gt, compare .gte,
    compare .like, among, notAmong]

theorem mem_all (k : LeafKind) : k ∈ all := by
  cases k with
  | compare op => cases op <;> decide
  | _ => decide

theorem head?_keyword (k : LeafKind) : k.keyword.toList.head? = some ' ' := by
  have hall : ∀ k ∈ all, k.keyword.toList.head? = some ' ' := by decide +kernel
  exact hall k (mem_all k)

theorem prefix_free : ∀ k ∈ all, ∀ l ∈ all, k.keyword.toList <+: l.keyword.toList → k = l := by
  decide +kernel

theorem keyword_append_inj {k l : LeafKind} {x y : List Char} (h : k.keyword.toList ++ x = l.keyword.toList ++ y) :
    k = l ∧ x = y := by
  have heq : k = l := by
    rcases List.prefix_or_prefix_of_prefix (List.prefix_append _ x) (h ▸ List.prefix_append _ y) with
      hkl | hlk
    · exact prefix_free k (mem_all k) l (mem_all l) hkl
    · exact (prefix_free l (mem_all l) k (mem_all k) hlk).symm
  subst heq
  exact ⟨rfl, List.append_cancel_left h⟩

end LeafKind

inductive LeafTest where
  | isNull
  | isNotNull
  | compare (op : Comparison) (value : List Char)
  | among (values : List (List Char))
  | notAmong (values : List (List Char))
deriving DecidableEq

namespace LeafTest

def kind : LeafTest → LeafKind
  | isNull => .isNull
  | isNotNull => .isNotNull
  | compare op _ => .compare op
  | among _ => .among
  | notAmong _ => .notAmong

def argument : LeafTest → List Char
  | isNull | isNotNull => []
  | compare _ value => value
  | among values | notAmong values => '(' :: [',', ' '].intercalate values ++ [')']

def chars (t : LeafTest) : List Char := t.kind.keyword.toList ++ t.argument

theorem head?_chars (t : LeafTest) (rest : List Char) : (t.chars ++ rest).head? = some ' ' := by
  rw [chars, List.append_assoc, List.head?_append, LeafKind.head?_keyword, Option.some_or]

def NamesValues : LeafTest → Prop
  | isNull | isNotNull => True
  | compare _ value => ValueText value
  | among values | notAmong values => ∀ value ∈ values, ValueText value

theorem append_inj {a b : LeafTest} {r s : List Char} (ha : a.NamesValues) (hb : b.NamesValues)
    (hr : Stops r) (hs : Stops s) (h : a.chars ++ r = b.chars ++ s) : a = b ∧ r = s := by
  rw [chars, chars, List.append_assoc, List.append_assoc] at h
  obtain ⟨hkind, hargument⟩ := LeafKind.keyword_append_inj h
  cases a with
  | isNull =>
    cases b with
    | isNull => exact ⟨rfl, hargument⟩
    | _ => cases hkind
  | isNotNull =>
    cases b with
    | isNotNull => exact ⟨rfl, hargument⟩
    | _ => cases hkind
  | compare op value =>
    cases b with
    | compare other twin =>
      obtain rfl := LeafKind.compare.inj hkind
      obtain ⟨rfl, hrs⟩ := ha.append_inj hb hr hs hargument
      exact ⟨rfl, hrs⟩
    | _ => cases hkind
  | among values =>
    cases b with
    | among others =>
      obtain ⟨rfl, hrs⟩ := ValueText.list_inj ha hb hargument
      exact ⟨rfl, hrs⟩
    | _ => cases hkind
  | notAmong values =>
    cases b with
    | notAmong others =>
      obtain ⟨rfl, hrs⟩ := ValueText.list_inj ha hb hargument
      exact ⟨rfl, hrs⟩
    | _ => cases hkind

end LeafTest

/-- What the text of a condition tells: the nodes with their children, and of each leaf the column and
the test. -/
inductive Sketch where
  | leaf (column : String) (test : LeafTest)
  | group (conjunctive : Bool) (children : List Sketch)

def isIdentifierChar (c : Char) : Bool := c.isAlphanum || c = '_' || c = '.'

structure IsIdentifier (name : String) : Prop where
  ne_nil : name.toList ≠ []
  chars : ∀ c ∈ name.toList, isIdentifierChar c = true

namespace Sketch

def isGroup : Sketch → Bool
  | leaf _ _ => false
  | group _ _ => true

def separator (conjunctive : Bool) : List Char :=
  ' ' :: if conjunctive then ['A', 'N', 'D', ' '] else ['O', 'R', ' ']

mutual

def chars : Sketch → List Char
  | leaf column test => column.toList ++ test.chars
  | group conjunctive children => (separator conjunctive).intercalate (childChars children)

def childChars : List Sketch → List (List Char)
  | [] => []
  | child :: children => Condition.enclosed child.isGroup (chars child) :: childChars children

end

def childText (s : Sketch) : List Char := Condition.enclosed s.isGroup s.chars

theorem childChars_eq_map (children : List Sketch) : childChars children = children.map childText := by
  induction children with
  | nil => rfl
  | cons child children ih => rw [childChars, ih, List.map_cons, childText]

inductive WellFormed : Sketch → Prop where
  | leaf {column : String} {test : LeafTest} (hcolumn : IsIdentifier column) (htest : test.NamesValues) :
    WellFormed (leaf column test)
  | group {conjunctive : Bool} {children : List Sketch} (hlength : 2 ≤ children.length)
      (hchildren : ∀ child ∈ children, WellFormed child) : WellFormed (group conjunctive children)

variable {c d : Sketch} {cs ds : List Sketch} {r s : List Char} {conjunctive other : Bool}

theorem separator_inj {x y : List Char} (h : separator conjunctive ++ x = separator other ++ y) :
    conjunctive = other ∧ x = y := by
  cases conjunctive <;> cases other <;> simp_all [separator]

theorem leaf_inj {column twin : String} {test others : LeafTest} (hcolumn : IsIdentifier column)
    (htwin : IsIdentifier twin) (htest : test.NamesValues) (hothers : others.NamesValues)
    (hr : Stops r) (hs : Stops s)
    (h : column.toList ++ test.chars ++ r = twin.toList ++ others.chars ++ s) :
    leaf column test = leaf twin others ∧ r = s := by
  have hblank : ∀ (t : LeafTest) (rest : List Char) (c : Char), (t.chars ++ rest).head? = some c →
      isIdentifierChar c = false := by
    intro t rest c hc
    rw [LeafTest.head?_chars] at hc
    obtain rfl := Option.some.inj hc
    rfl
  rw [List.append_assoc, List.append_assoc] at h
  obtain ⟨hname, hrest⟩ := span_inj hcolumn.chars htwin.chars (hblank test r) (hblank others s) h
  obtain ⟨rfl, hrs⟩ := LeafTest.append_inj htest hothers hr hs hrest
  obtain rfl := String.toList_inj.1 hname
  exact ⟨rfl, hrs⟩

theorem leaf_ne_group {column : String} {test : LeafTest} (hcolumn : IsIdentifier column)
    (children : List Sketch) :
    (leaf column test).childText ++ r ≠ (group conjunctive children).childText ++ s := by
  intro h
  have hne := hcolumn.ne_nil
  have hchars := hcolumn.chars
  change column.toList ++ test.chars ++ r = '(' :: _ at h
  cases hname : column.toList with
  | nil => exact absurd hname hne
  | cons c cs =>
    rw [hname] at h hchars
    obtain ⟨rfl, -⟩ := List.cons.inj h
    exact absurd (hchars _ List.mem_cons_self) (by decide)

/-- The children of a node are found in one way, and so is the kind of a node that has several. -/
theorem children_inj (hcs : cs ≠ []) (hds : ds ≠ [])
    (hinj : ∀ c ∈ cs, ∀ d ∈ ds, ∀ r s, Stops r → Stops s → c.childText ++ r = d.childText ++ s →
      c = d ∧ r = s)
    (hr : Stops r) (hs : Stops s) (hrb : r.head? ≠ some ' ') (hsb : s.head? ≠ some ' ')
    (h : (separator conjunctive).intercalate (cs.map childText) ++ r =
      (separator other).intercalate (ds.map childText) ++ s) :
    cs = ds ∧ r = s ∧ (2 ≤ cs.length → conjunctive = other) := by
  have hblank : isStop ' ' = true := by decide
  cases cs with
  | nil => exact absurd rfl hcs
  | cons c cs =>
    cases ds with
    | nil => exact absurd rfl hds
    | cons d ds =>
      rw [List.map_cons, List.map_cons, intercalate_cons, intercalate_cons, List.append_assoc,
        List.append_assoc] at h
      obtain ⟨rfl, htail⟩ := hinj c List.mem_cons_self d List.mem_cons_self _ _
        (hr.separated (f := id) hblank _) (hs.separated (f := id) hblank _) h
      -- behind the first child stands the separator of the node or what follows the node
      cases cs with
      | nil =>
        cases ds with
        | nil => exact ⟨rfl, htail, fun hlength => absurd hlength (by simp)⟩
        | cons d ds => exact absurd (by rw [show r = _ from htail]; rfl) hrb
      | cons e cs =>
        cases ds with
        | nil => exact absurd (by rw [← show _ = s from htail]; rfl) hsb
        | cons d ds =>
          have hsep : conjunctive = other := by
            simp only [List.map_cons, List.flatMap_cons, List.append_assoc] at htail
            exact (separator_inj htail).1
          subst hsep
          simp only [List.flatMap_map] at htail
          obtain ⟨hrest, hrs⟩ := separated_inj (f := childText) hblank
            (fun c hc d hd => hinj c (List.mem_cons_of_mem _ hc) d (List.mem_cons_of_mem _ hd)) hr hs
            hrb hsb htail
          exact ⟨by rw [hrest], hrs, fun _ => rfl⟩

theorem ne_nil_of_length (h : 2 ≤ cs.length) : cs ≠ [] := by
  rintro rfl
  exact absurd h (by decide)

theorem childText_inj (hc : WellFormed c) (hd : WellFormed d) (hr : Stops r) (hs : Stops s)
    (h : c.childText ++ r = d.childText ++ s) : c = d ∧ r = s := by
  induction hc generalizing d r s with
  | leaf hcolumn htest =>
    cases hd with
    | leaf htwin hothers => exact leaf_inj hcolumn htwin htest hothers hr hs h
    | group => exact absurd h (leaf_ne_group hcolumn _)
  | @group conjunctive children hlength hchildren ih =>
    cases hd with
    | leaf htwin hothers => exact absurd h.symm (leaf_ne_group htwin _)
    | @group other ds hdlength hds =>
      have hclose : ∀ t : List Char, Stops (')' :: t) := stops_cons (by decide)
      have hblank : ∀ t : List Char, (')' :: t).head? ≠ some ' ' := by simp
      simp only [childText, isGroup, Condition.enclosed, chars, childChars_eq_map, ↓reduceIte,
        List.cons_append, List.append_assoc, List.cons.injEq, true_and] at h
      obtain ⟨rfl, hrs, hsame⟩ := children_inj (ne_nil_of_length hlength) (ne_nil_of_length hdlength)
        (fun c hc d hd r s hr hs heq => ih c hc (hds d hd) hr hs heq) (hclose r) (hclose s) (hblank r)
        (hblank s) h
      obtain rfl := hsame hlength
      exact ⟨rfl, (List.cons.inj hrs).2⟩

/-- A leaf counts as the only child of a node, and no node has an only child. -/
theorem leaf_chars_ne_group {column : String} {test : LeafTest} (hc : WellFormed (leaf column test))
    (hlength : 2 ≤ cs.length) (hcs : ∀ child ∈ cs, WellFormed child) :
    (leaf column test).chars ≠ (group conjunctive cs).chars := by
  intro h
  have hblank : ([] : List Char).head? ≠ some ' ' := nofun
  have honly : (separator conjunctive).intercalate ([leaf column test].map childText) ++ [] =
      (separator conjunctive).intercalate (cs.map childText) ++ [] := by
    simpa [chars, childChars_eq_map, childText, isGroup, Condition.enclosed] using h
  obtain ⟨rfl, -⟩ := children_inj (by simp) (ne_nil_of_length hlength)
    (fun c hc' d hd r s => childText_inj (List.mem_singleton.1 hc' ▸ hc) (hcs d hd)) stops_nil stops_nil
    hblank hblank honly
  exact absurd hlength (by simp)

/-- A sketch is told from its text. -/
theorem chars_inj (hc : WellFormed c) (hd : WellFormed d) (h : c.chars = d.chars) : c = d := by
  have hblank : ([] : List Char).head? ≠ some ' ' := nofun
  cases hc with
  | @leaf column test hcolumn htest =>
    cases hd with
    | leaf htwin hothers =>
      exact (leaf_inj hcolumn htwin htest hothers stops_nil stops_nil (congrArg (· ++ []) h)).1
    | group hlength hds => exact absurd h (leaf_chars_ne_group (.leaf hcolumn htest) hlength hds)
  | @group conjunctive cs hlength hcs =>
    cases hd with
    | leaf htwin hothers =>
      exact absurd h.symm (leaf_chars_ne_group (.leaf htwin hothers) hlength hcs)
    | group hdlength hds =>
      simp only [chars, childChars_eq_map] at h
      obtain ⟨rfl, -, hsame⟩ := children_inj (ne_nil_of_length hlength) (ne_nil_of_length hdlength)
        (fun c hc d hd r s => childText_inj (hcs c hc) (hds d hd)) stops_nil stops_nil hblank hblank
        (congrArg (· ++ []) h)
      rw [hsame hlength]

end Sketch

namespace Condition

mutual

def sketch : Condition → Sketch
  | .compare column .eq .null => .leaf column .isNull
  | .compare column .ne .null => .leaf column .isNotNull
  | .compare column op value => .leaf column (.compare op value.chars)
  | .among column values => .leaf column (.among (values.map Value.chars))
  | .notAmong column values => .leaf column (.notAmong (values.map Value.chars))
  | .all children => .group true (sketches children)
  | .any children => .group false (sketches children)

def sketches : List Condition → List Sketch
  | [] => []
  | child :: children => sketch child :: sketches children

end

/-- Nodes have at least two children, columns are identifiers, and in no value is a map, a record or a
document. -/
inductive Legible : Condition → Prop where
  | compare {column : String} {op : Comparison} {value : Value} (hcolumn : IsIdentifier column)
      (hvalue : value.jsonTexts = []) : Legible (.compare column op value)
  | among {column : String} {values : List Value} (hcolumn : IsIdentifier column)
      (hvalues : ∀ value ∈ values, value.jsonTexts = []) : Legible (.among column values)
  | notAmong {column : String} {values : List Value} (hcolumn : IsIdentifier column)
      (hvalues : ∀ value ∈ values, value.jsonTexts = []) : Legible (.notAmong column values)
  | all {children : List Condition} (hlength : 2 ≤ children.length)
      (hchildren : ∀ child ∈ children, Legible child) : Legible (.all children)
  | any {children : List Condition} (hlength : 2 ≤ children.length)
      (hchildren : ∀ child ∈ children, Legible child) : Legible (.any children)

theorem sketches_eq_map (cs : List Condition) : sketches cs = cs.map sketch := by
  induction cs with
  | nil => rfl
  | cons c cs ih => rw [sketches, ih, List.map_cons]

theorem sketch_compare_cases (column : String) (op : Comparison) (value : Value) :
    (op = .eq ∧ value = .null ∧ sketch (.compare column op value) = .leaf column .isNull) ∨
    (op = .ne ∧ value = .null ∧ sketch (.compare column op value) = .leaf column .isNotNull) ∨
    (sketch (.compare column op value) = .leaf column (.compare op value.chars) ∧
      (compare column op value).chars = column.toList ++ ' ' :: op.symbol.toList ++ ' ' :: value.chars) := by
  cases op <;> cases value <;> simp [sketch, chars]

theorem isGroup_sketch (c : Condition) : c.sketch.isGroup = c.isGroup := by
  cases c with
  | compare column op value => cases op <;> cases value <;> rfl
  | _ => rfl

theorem chars_sketch_compare (column : String) (op : Comparison) (value : Value) :
    (sketch (.compare column op value)).chars = (compare column op value).chars := by
  rcases sketch_compare_cases column op value with ⟨rfl, rfl, -⟩ | ⟨rfl, rfl, -⟩ | ⟨hsketch, hchars⟩
  · simp only [sketch, Sketch.chars, LeafTest.chars, LeafTest.kind, LeafKind.keyword, LeafTest.argument,
      List.append_nil, chars]
  · simp only [sketch, Sketch.chars, LeafTest.chars, LeafTest.kind, LeafKind.keyword, LeafTest.argument,
      List.append_nil, chars]
  · rw [hsketch, hchars]
    simp [Sketch.chars, LeafTest.chars, LeafTest.kind, LeafKind.keyword, LeafTest.argument]

theorem chars_sketch_values (column : String) (values : List Value) :
    (sketch (.among column values)).chars = (among column values).chars ∧
      (sketch (.notAmong column values)).chars = (notAmong column values).chars := by
  have hvalues : (Value.list values).chars =
      '(' :: [',', ' '].intercalate (values.map Value.chars) ++ [')'] := by
    rw [Value.chars, Value.itemChars_eq_map]
  constructor
  · rw [chars, hvalues, List.append_assoc]
    rfl
  · rw [chars, hvalues, List.append_assoc]
    rfl

mutual

theorem chars_sketch : ∀ c : Condition, c.sketch.chars = c.chars
  | .compare column op value => chars_sketch_compare column op value
  | .among column values => (chars_sketch_values column values).1
  | .notAmong column values => (chars_sketch_values column values).2
  | .all children => by
    rw [sketch, Sketch.chars, chars, childChars_sketches children]
    simp [Sketch.separator]
  | .any children => by
    rw [sketch, Sketch.chars, chars, childChars_sketches children]
    simp [Sketch.separator]

theorem childChars_sketches : ∀ cs : List Condition, Sketch.childChars (sketches cs) = childChars cs
  | [] => rfl
  | c :: cs => by
    rw [sketches, Sketch.childChars, childChars, isGroup_sketch, chars_sketch c, childChars_sketches cs]

end

theorem Legible.wellFormed {c : Condition} (h : Legible c) : c.sketch.WellFormed := by
  induction h with
  | @compare column op value hcolumn hvalue =>
    rcases sketch_compare_cases column op value with ⟨-, -, hsketch⟩ | ⟨-, -, hsketch⟩ | ⟨hsketch, -⟩
    · rw [hsketch]
      exact .leaf hcolumn trivial
    · rw [hsketch]
      exact .leaf hcolumn trivial
    · rw [hsketch]
      exact .leaf hcolumn (Value.valueText_chars hvalue)
  | among hcolumn hvalues =>
    refine .leaf hcolumn fun t ht => ?_
    obtain ⟨value, hvalue, rfl⟩ := List.mem_map.1 ht
    exact Value.valueText_chars (hvalues value hvalue)
  | notAmong hcolumn hvalues =>
    refine .leaf hcolumn fun t ht => ?_
    obtain ⟨value, hvalue, rfl⟩ := List.mem_map.1 ht
    exact Value.valueText_chars (hvalues value hvalue)
  | all hlength hchildren ih =>
    rw [sketch, sketches_eq_map]
    exact .group (by simpa using hlength) (List.forall_mem_map.2 ih)
  | any hlength hchildren ih =>
    rw [sketch, sketches_eq_map]
    exact .group (by simpa using hlength) (List.forall_mem_map.2 ih)

/-- The text of a condition tells its sketch, and tells no more. -/
theorem text_eq_iff {f g : Condition} (hf : Legible f) (hg : Legible g) :
    f.text = g.text ↔ f.sketch = g.sketch := by
  rw [text, text, String.ofList_inj, ← chars_sketch f, ← chars_sketch g]
  exact ⟨Sketch.chars_inj hf.wellFormed hg.wellFormed, congrArg Sketch.chars⟩

def quotedSearch : Condition :=
  .all [.compare "t.name" .like (.text "x' OR (b = 1"),
    .any [.among "id" [.int 1, .present (.uint 2)], .isNull "gone"]]

def quotedTwin : Condition :=
  .all [.compare "t.name" .like (.present (.text "x' OR (b = 1")),
    .any [.among "id" [.uint 1, .int 2], .isNull "gone"]]

theorem quotedSearch_sketch :
    Legible quotedSearch ∧ Legible quotedTwin ∧
      quotedSearch.text = "t.name LIKE 'x'' OR (b = 1' AND (id IN (1, 2) OR gone IS NULL)" ∧
      quotedSearch.sketch = quotedTwin.sketch := by
  have hname : IsIdentifier "t.name" := ⟨by simp, by simp [isIdentifierChar]⟩
  have hid : IsIdentifier "id" := ⟨by simp, by simp [isIdentifierChar]⟩
  have hgone : Legible (.isNull "gone") := .compare ⟨by simp, by simp [isIdentifierChar]⟩ rfl
  have hsearch : Legible quotedSearch := by
    refine .all (by decide) (List.forall_mem_cons.2 ⟨.compare hname rfl, List.forall_mem_singleton.2 ?_⟩)
    refine .any (by decide) (List.forall_mem_cons.2 ⟨?_, List.forall_mem_singleton.2 hgone⟩)
    exact .among hid (List.forall_mem_cons.2 ⟨rfl, List.forall_mem_singleton.2 rfl⟩)
  have htwin : Legible quotedTwin := by
    refine .all (by decide) (List.forall_mem_cons.2 ⟨.compare hname rfl, List.forall_mem_singleton.2 ?_⟩)
    refine .any (by decide) (List.forall_mem_cons.2 ⟨?_, List.forall_mem_singleton.2 hgone⟩)
    exact .among hid (List.forall_mem_cons.2 ⟨rfl, List.forall_mem_singleton.2 rfl⟩)
  exact ⟨hsearch, htwin, by decide +kernel, (text_eq_iff hsearch htwin).1 (by decide +kernel)⟩

end Condition

end Criteria
