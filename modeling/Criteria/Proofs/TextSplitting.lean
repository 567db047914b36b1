import Mathlib
import Criteria.Proofs.Quoting

set_option autoImplicit false

namespace Criteria

def isStop (c : Char) : Bool := c = ' ' || c = ',' || c = ')'

/-- What may follow the text of a value. -/
def Stops (rest : List Char) : Prop := ∀ c, rest.head? = some c → isStop c = true

theorem stops_nil : Stops [] := nofun

theorem stops_cons {c : Char} (h : isStop c = true) (rest : List Char) : Stops (c :: rest) := by
  intro d hd
  obtain rfl := Option.some.inj hd
  exact h

inductive ValueText : List Char → Prop where
  | word {cs : List Char} (h : IsWord cs) : ValueText cs
  | quoted (s : List Char) : ValueText ('\'' :: Value.doubleQuotes s ++ ['\''])
  | list {ts : List (List Char)} (h : ∀ t ∈ ts, ValueText t) :
    ValueText ('(' :: [',', ' '].intercalate ts ++ [')'])

theorem Value.valueText_chars {v : Value} (h : v.jsonTexts = []) : ValueText v.chars := by
  induction v using literal_induction with
  | atom v hatom => exact .word (isWord_of_isAtom hatom)
  | text s => exact .quoted _
  | json v hjson =>
    rw [jsonTexts_of_writesJson hjson] at h
    cases h
  | present inner ih => exact ih h
  | list items ih =>
    rw [jsonTexts, itemJsonTexts_eq_flatMap, List.flatMap_eq_nil_iff] at h
    rw [chars, itemChars_eq_map]
    refine .list fun t ht => ?_
    obtain ⟨item, hitem, rfl⟩ := List.mem_map.1 ht
    exact ih item hitem (h item hitem)

theorem IsWord.append_ne_cons {cs rest s : List Char} {c : Char} (h : IsWord cs)
    (hc : isWordChar c = false) : cs ++ rest ≠ c :: s := by
  cases cs with
  | nil => exact absurd rfl h.ne_nil
  | cons d cs =>
    intro heq
    obtain ⟨rfl, -⟩ := List.cons.inj heq
    simp [h.chars d List.mem_cons_self] at hc

section Splitting

variable {r s : List Char}

/-- The longest part of a text whose characters all have a property is found in one way. -/
theorem span_inj {p : Char → Bool} {cs ds : List Char} (hcs : ∀ c ∈ cs, p c = true)
    (hds : ∀ c ∈ ds, p c = true) (hr : ∀ c, r.head? = some c → p c = false)
    (hs : ∀ c, s.head? = some c → p c = false) (h : cs ++ r = ds ++ s) : cs = ds ∧ r = s := by
  induction cs generalizing ds with
  | nil =>
    cases ds with
    | nil => exact ⟨rfl, h⟩
    | cons d ds =>
      have hd := hr d (by rw [show r = _ from h]; rfl)
      simp [hds d List.mem_cons_self] at hd
  | cons c cs ih =>
    cases ds with
    | nil =>
      have hc := hs c (by rw [← show _ = s from h]; rfl)
      simp [hcs c List.mem_cons_self] at hc
    | cons d ds =>
      obtain ⟨rfl, hrest⟩ := List.cons.inj h
      obtain ⟨rfl, hrs⟩ := ih (List.forall_mem_cons.1 hcs).2 (List.forall_mem_cons.1 hds).2 hrest
      exact ⟨rfl, hrs⟩

theorem Stops.not_word (hr : Stops r) (c : Char) (hc : r.head? = some c) : isWordChar c = false := by
  have hstop := hr c hc
  simp only [isStop, Bool.or_eq_true, decide_eq_true_eq] at hstop
  rcases hstop with (rfl | rfl) | rfl <;> decide

theorem Stops.not_quote (hr : Stops r) : r.head? ≠ some '\'' := by
  intro h
  exact absurd (hr _ h) (by decide)

theorem Stops.separated {α : Type} {f : α → List Char} {c : Char} {sep : List Char}
    (hc : isStop c = true) (hr : Stops r) (xs : List α) :
    Stops (xs.flatMap (fun x => c :: sep ++ f x) ++ r) := by
  cases xs with
  | nil => exact hr
  | cons x xs => exact stops_cons hc _

/-- Separated texts that can each be split off are found in one way, if the separator does not begin
what follows them. -/
theorem separated_inj {α : Type} {f : α → List Char} {c : Char} {sep : List Char} {xs ys : List α}
    (hc : isStop c = true)
    (hinj : ∀ x ∈ xs, ∀ y ∈ ys, ∀ r s, Stops r → Stops s → f x ++ r = f y ++ s → x = y ∧ r = s)
    (hr : Stops r) (hs : Stops s) (hrc : r.head? ≠ some c) (hsc : s.head? ≠ some c)
    (h : xs.flatMap (fun x => c :: sep ++ f x) ++ r = ys.flatMap (fun y => c :: sep ++ f y) ++ s) :
    xs = ys ∧ r = s := by
  induction xs generalizing ys with
  | nil =>
    cases ys with
    | nil => exact ⟨rfl, h⟩
    | cons y ys => exact absurd (by rw [show r = _ from h]; rfl) hrc
  | cons x xs ih =>
    cases ys with
    | nil => exact absurd (by rw [← show _ = s from h]; rfl) hsc
    | cons y ys =>
      simp only [List.flatMap_cons, List.cons_append, List.append_assoc] at h
      have hrest := List.append_cancel_left (List.cons.inj h).2
      obtain ⟨rfl, htail⟩ := hinj x List.mem_cons_self y List.mem_cons_self _ _
        (hr.separated hc xs) (hs.separated hc ys) (by simpa using hrest)
      obtain ⟨rfl, hrs⟩ := ih (fun x hx y hy => hinj x (List.mem_cons_of_mem _ hx) y
        (List.mem_cons_of_mem _ hy)) (by simpa using htail)
      exact ⟨rfl, hrs⟩

/-- A character inside of a literal is told from the closing quote. -/
theorem doubleQuotes_cons_ne (c : Char) (a : List Char) (hr : Stops r) :
    Value.doubleQuotes (c :: a) ++ '\'' :: s ≠ '\'' :: r := by
  rw [Piece.doubleQuotes_cons]
  by_cases hc : c = '\''
  · rw [if_pos hc]
    intro h
    exact hr.not_quote (by rw [← (List.cons.inj h).2]; rfl)
  · rw [if_neg hc]
    exact fun h => hc (List.cons.inj h).1

theorem doubleQuotes_inj {a b : List Char} (hr : Stops r) (hs : Stops s)
    (h : Value.doubleQuotes a ++ '\'' :: r = Value.doubleQuotes b ++ '\'' :: s) : a = b ∧ r = s := by
  induction a generalizing b with
  | nil =>
    cases b with
    | nil => exact ⟨rfl, (List.cons.inj h).2⟩
    | cons d b => exact absurd h.symm (doubleQuotes_cons_ne d b hr)
  | cons c a ih =>
    cases b with
    | nil => exact absurd h (doubleQuotes_cons_ne c a hs)
    | cons d b =>
      rw [Piece.doubleQuotes_cons, Piece.doubleQuotes_cons] at h
      by_cases hc : c = '\'' <;> by_cases hd : d = '\''
      · subst hc hd
        obtain ⟨rfl, hrs⟩ := ih (List.cons.inj (List.cons.inj h).2).2
        exact ⟨rfl, hrs⟩
      · rw [if_pos hc, if_neg hd] at h
        exact absurd (List.cons.inj h).1.symm hd
      · rw [if_neg hc, if_pos hd] at h
        exact absurd (List.cons.inj h).1 hc
      · rw [if_neg hc, if_neg hd] at h
        obtain ⟨rfl, hrest⟩ := List.cons.inj h
        obtain ⟨rfl, hrs⟩ := ih hrest
        exact ⟨rfl, hrs⟩

end Splitting

namespace ValueText

variable {a b r s : List Char}

theorem head? (h : ValueText a) : ∃ c, a.head? = some c ∧ c ≠ ')' := by
  cases h with
  | word h =>
    cases a with
    | nil => exact absurd rfl h.ne_nil
    | cons c cs =>
      refine ⟨c, rfl, ?_⟩
      rintro rfl
      exact absurd (h.chars _ List.mem_cons_self) (by decide)
  | quoted s => exact ⟨'\'', rfl, by decide⟩
  | list h => exact ⟨'(', rfl, by decide⟩

theorem items_ne_close (h : ValueText a) (us : List (List Char)) :
    [',', ' '].intercalate (a :: us) ++ s ≠ ')' :: r := by
  obtain ⟨c, hc, hne⟩ := h.head?
  obtain ⟨cs, rfl⟩ := List.head?_eq_some_iff.1 hc
  rw [intercalate_cons]
  exact fun heq => hne (List.cons.inj heq).1

/-- The items of a list are found in one way, if each of them can be split off. -/
theorem items_inj {ts us : List (List Char)} (hts : ∀ t ∈ ts, ValueText t) (hus : ∀ u ∈ us, ValueText u)
    (hinj : ∀ t ∈ ts, ∀ u ∈ us, ∀ r s, Stops r → Stops s → t ++ r = u ++ s → t = u ∧ r = s)
    (h : [',', ' '].intercalate ts ++ ')' :: r = [',', ' '].intercalate us ++ ')' :: s) :
    ts = us ∧ r = s := by
  have hclose : ∀ t : List Char, Stops (')' :: t) := stops_cons (by decide)
  have hcomma : isStop ',' = true := by decide
  have hnone : ∀ t : List Char, (')' :: t).head? ≠ some ',' := by simp
  cases ts with
  | nil =>
    cases us with
    | nil => exact ⟨rfl, (List.cons.inj h).2⟩
    | cons u us => exact absurd h.symm ((hus u List.mem_cons_self).items_ne_close us)
  | cons t ts =>
    cases us with
    | nil => exact absurd h ((hts t List.mem_cons_self).items_ne_close ts)
    | cons u us =>
      rw [intercalate_cons, intercalate_cons, List.append_assoc, List.append_assoc] at h
      obtain ⟨rfl, htail⟩ := hinj t List.mem_cons_self u List.mem_cons_self _ _
        ((hclose r).separated (f := id) hcomma ts) ((hclose s).separated (f := id) hcomma us) h
      obtain ⟨rfl, hrs⟩ := separated_inj (f := id) hcomma
        (fun t ht u hu => hinj t (List.mem_cons_of_mem _ ht) u (List.mem_cons_of_mem _ hu))
        (hclose r) (hclose s) (hnone r) (hnone s) htail
      exact ⟨rfl, (List.cons.inj hrs).2⟩

/-- The text of a value is split off in one way from what may follow it. -/
theorem append_inj (ha : ValueText a) (hb : ValueText b) (hr : Stops r) (hs : Stops s)
    (h : a ++ r = b ++ s) : a = b ∧ r = s := by
  induction ha generalizing b r s with
  | @word cs hcs =>
    cases hb with
    | word hds => exact span_inj hcs.chars hds.chars hr.not_word hs.not_word h
    | quoted u => exact absurd h (hcs.append_ne_cons (by decide))
    | list hus => exact absurd h (hcs.append_ne_cons (by decide))
  | quoted t =>
    cases hb with
    | word hds => exact absurd h.symm (hds.append_ne_cons (by decide))
    | quoted u =>
      simp only [List.cons_append, List.append_assoc] at h
      obtain ⟨rfl, hrs⟩ := doubleQuotes_inj hr hs (List.cons.inj h).2
      exact ⟨rfl, hrs⟩
    | list hus => cases (List.cons.inj h).1
  | @list ts hts ih =>
    cases hb with
    | word hds => exact absurd h.symm (hds.append_ne_cons (by decide))
    | quoted u => cases (List.cons.inj h).1
    | list hus =>
      simp only [List.cons_append, List.append_assoc] at h
      obtain ⟨rfl, hrs⟩ := items_inj hts hus (fun t ht u hu r s hr hs heq => ih t ht (hus u hu) hr hs heq)
        (List.cons.inj h).2
      exact ⟨rfl, hrs⟩

theorem list_inj {ts us : List (List Char)} (hts : ∀ t ∈ ts, ValueText t) (hus : ∀ u ∈ us, ValueText u)
    (h : '(' :: [',', ' '].intercalate ts ++ [')'] ++ r = '(' :: [',', ' '].intercalate us ++ [')'] ++ s) :
    ts = us ∧ r = s := by
  simp only [List.cons_append, List.append_assoc] at h
  exact items_inj hts hus (fun t ht u hu r s => (hts t ht).append_inj (hus u hu)) (List.cons.inj h).2

end ValueText

end Criteria
