import Mathlib
import Criteria.Proofs.ValueText

set_option autoImplicit false

namespace Criteria

inductive Piece where
  | outside (c : Char)
  /-- A complete literal, with every doubled quote in it taken for one. -/
  | literal (content : List Char)
deriving DecidableEq

namespace Piece

mutual

def ofChars : List Char → Option (List Piece)
  | [] => some []
  | '\'' :: rest => ofLiteral [] rest
  | c :: rest => (ofChars rest).map (outside c :: ·)

/-- The pieces from inside a literal on, of which `content` is read. A doubled quote stands for one,
and a lone quote closes the literal. -/
def ofLiteral (content : List Char) : List Char → Option (List Piece)
  | [] => none
  | '\'' :: '\'' :: rest => ofLiteral (content ++ ['\'']) rest
  | '\'' :: rest => (ofChars rest).map (literal content :: ·)
  | c :: rest => ofLiteral (content ++ [c]) rest

end

def chars : Piece → List Char
  | outside c => [c]
  | literal content => '\'' :: Value.doubleQuotes content ++ ['\'']

variable {c : Char} {rest content : List Char} {ps qs : List Piece}

theorem ofChars_cons (h : c ≠ '\'') : ofChars (c :: rest) = (ofChars rest).map (outside c :: ·) := by
  rw [ofChars]
  exact h

theorem ofLiteral_cons (h : c ≠ '\'') : ofLiteral content (c :: rest) = ofLiteral (content ++ [c]) rest := by
  rw [ofLiteral]
  · exact fun _ hc => absurd hc h
  · exact h

theorem ofLiteral_close (h : rest.head? ≠ some '\'') :
    ofLiteral content ('\'' :: rest) = (ofChars rest).map (literal content :: ·) := by
  rw [ofLiteral]
  rintro tail rfl
  exact h rfl

theorem doubleQuotes_cons (c : Char) (s : List Char) :
    Value.doubleQuotes (c :: s) = (if c = '\'' then ['\'', '\''] else [c]) ++ Value.doubleQuotes s :=
  List.flatMap_cons

theorem doubleQuotes_append (s t : List Char) :
    Value.doubleQuotes (s ++ t) = Value.doubleQuotes s ++ Value.doubleQuotes t :=
  List.flatMap_append

theorem count_doubleQuotes (s : List Char) : (Value.doubleQuotes s).count '\'' = 2 * s.count '\'' := by
  induction s with
  | nil => rfl
  | cons c s ih =>
    rw [doubleQuotes_cons, List.count_append, ih, List.count_cons]
    by_cases hc : c = '\''
    · simp [hc]
      omega
    · simp [hc]

theorem doubleQuotes_eq_self {s : List Char} (h : '\'' ∉ s) : Value.doubleQuotes s = s := by
  induction s with
  | nil => rfl
  | cons c s ih =>
    rw [List.mem_cons, not_or] at h
    rw [doubleQuotes_cons, if_neg (Ne.symm h.1), ih h.2, List.singleton_append]

/-- A literal is read up to its last quote, if no other quote follows. -/
theorem ofLiteral_doubleQuotes (s : List Char) (h : rest.head? ≠ some '\'') :
    ofLiteral content (Value.doubleQuotes s ++ '\'' :: rest) =
      (ofChars rest).map (literal (content ++ s) :: ·) := by
  induction s generalizing content with
  | nil =>
    rw [List.append_nil]
    exact ofLiteral_close h
  | cons c s ih =>
    rw [doubleQuotes_cons]
    by_cases hc : c = '\''
    · subst hc
      change ofLiteral content ('\'' :: '\'' :: (Value.doubleQuotes s ++ '\'' :: rest)) = _
      rw [ofLiteral, ih, List.append_assoc, List.singleton_append]
    · rw [if_neg hc]
      change ofLiteral content (c :: (Value.doubleQuotes s ++ '\'' :: rest)) = _
      rw [ofLiteral_cons hc, ih, List.append_assoc, List.singleton_append]

mutual

theorem flatMap_chars_of_ofChars (cs : List Char) (ps : List Piece) (h : ofChars cs = some ps) :
    ps.flatMap chars = cs := by
  match cs with
  | [] =>
    obtain rfl := Option.some.inj h
    rfl
  | c :: rest =>
    by_cases hc : c = '\''
    · subst hc
      exact flatMap_chars_of_ofLiteral rest [] ps h
    · rw [ofChars_cons hc] at h
      obtain ⟨qs, hqs, rfl⟩ := Option.map_eq_some_iff.1 h
      rw [List.flatMap_cons, flatMap_chars_of_ofChars rest qs hqs]
      rfl

theorem flatMap_chars_of_ofLiteral (cs content : List Char) (ps : List Piece)
    (h : ofLiteral content cs = some ps) :
    ps.flatMap chars = '\'' :: Value.doubleQuotes content ++ cs := by
  match cs with
  | [] => cases h
  | c :: rest =>
    by_cases hc : c = '\''
    · subst hc
      by_cases hnext : rest.head? = some '\''
      · obtain ⟨tail, rfl⟩ := List.head?_eq_some_iff.1 hnext
        rw [ofLiteral] at h
        rw [flatMap_chars_of_ofLiteral tail _ ps h, doubleQuotes_append]
        simp [Value.doubleQuotes]
      · rw [ofLiteral_close hnext] at h
        obtain ⟨qs, hqs, rfl⟩ := Option.map_eq_some_iff.1 h
        rw [List.flatMap_cons, flatMap_chars_of_ofChars rest qs hqs, chars, List.append_assoc,
          List.singleton_append]
    · rw [ofLiteral_cons hc] at h
      rw [flatMap_chars_of_ofLiteral rest _ ps h, doubleQuotes_append]
      simp [Value.doubleQuotes, hc]

end


/-- A text that is read as these pieces wherever it stands, unless a quote follows. -/
def Reads (ps : List Piece) : Prop :=
  ∀ rest, rest.head? ≠ some '\'' → ofChars (ps.flatMap chars ++ rest) = (ofChars rest).map (ps ++ ·)

namespace Reads

theorem nil : Reads [] := fun rest _ => by simp

theorem literal (content : List Char) : Reads [.literal content] := by
  intro rest h
  change ofLiteral [] (Value.doubleQuotes content ++ ['\''] ++ [] ++ rest) = _
  rw [List.append_nil, List.append_assoc]
  exact ofLiteral_doubleQuotes content h

theorem cons_outside (hc : c ≠ '\'') (h : Reads ps) : Reads (.outside c :: ps) := by
  intro rest hrest
  change ofChars (c :: (ps.flatMap chars ++ rest)) = _
  rw [ofChars_cons hc, h rest hrest, Option.map_map]
  rfl

theorem append_outside (h : Reads ps) (hc : c ≠ '\'') (hqs : Reads qs) : Reads (ps ++ .outside c :: qs) := by
  intro rest hrest
  have hhead : ((.outside c :: qs : List Piece).flatMap chars ++ rest).head? ≠ some '\'' := by
    change some c ≠ some '\''
    exact fun heq => hc (Option.some.inj heq)
  rw [List.flatMap_append, List.append_assoc, h _ hhead, hqs.cons_outside hc rest hrest, Option.map_map]
  exact congrArg (fun f => (ofChars rest).map f) (funext fun _ => (List.append_assoc _ _ _).symm)

theorem map_outside {cs : List Char} (h : ∀ c ∈ cs, c ≠ '\'') : Reads (cs.map .outside) := by
  induction cs with
  | nil => exact nil
  | cons c cs ih =>
    obtain ⟨hc, hcs⟩ := List.forall_mem_cons.1 h
    exact (ih hcs).cons_outside hc

theorem append_separated {pss : List (List Piece)} (h : Reads ps) (hpss : ∀ qs ∈ pss, Reads qs) :
    Reads (ps ++ pss.flatMap ([.outside ',', .outside ' '] ++ ·)) := by
  induction pss generalizing ps with
  | nil => simpa using h
  | cons qs pss ih =>
    obtain ⟨hqs, hrest⟩ := List.forall_mem_cons.1 hpss
    exact h.append_outside (by decide) ((ih hqs hrest).cons_outside (by decide))

end Reads

theorem ofChars_flatMap_chars (h : Reads ps) : ofChars (ps.flatMap chars) = some ps := by
  have hread := h [] nofun
  simpa [ofChars] using hread

theorem flatMap_chars_outside (cs : List Char) : (cs.map outside).flatMap chars = cs := by
  rw [List.flatMap_map]
  exact List.flatMap_singleton' cs

mutual

theorem isSome_ofChars_iff (cs : List Char) : (ofChars cs).isSome ↔ Even (cs.count '\'') := by
  match cs with
  | [] => simp [ofChars]
  | c :: rest =>
    by_cases hc : c = '\''
    · subst hc
      rw [ofChars, isSome_ofLiteral_iff rest [], List.count_cons_self, Nat.even_add_one,
        Nat.not_even_iff_odd]
    · rw [ofChars_cons hc, Option.isSome_map, isSome_ofChars_iff rest, List.count_cons_of_ne hc]

theorem isSome_ofLiteral_iff (cs content : List Char) :
    (ofLiteral content cs).isSome ↔ Odd (cs.count '\'') := by
  match cs with
  | [] => simp [ofLiteral]
  | c :: rest =>
    by_cases hc : c = '\''
    · subst hc
      rw [List.count_cons_self, Nat.odd_add_one, Nat.not_odd_iff_even]
      by_cases hnext : rest.head? = some '\''
      · obtain ⟨tail, rfl⟩ := List.head?_eq_some_iff.1 hnext
        rw [ofLiteral, isSome_ofLiteral_iff tail, List.count_cons_self, Nat.even_add_one,
          Nat.not_even_iff_odd]
      · rw [ofLiteral_close hnext, Option.isSome_map, isSome_ofChars_iff rest]
    · rw [ofLiteral_cons hc, isSome_ofLiteral_iff rest, List.count_cons_of_ne hc]

end

end Piece

theorem flatMap_intercalate {α β : Type} (f : α → List β) (sep : List α) (xss : List (List α)) :
    (sep.intercalate xss).flatMap f = (sep.flatMap f).intercalate (xss.map (·.flatMap f)) := by
  cases xss with
  | nil => rfl
  | cons xs xss =>
    rw [intercalate_cons, List.map_cons, intercalate_cons, List.flatMap_append, List.flatMap_assoc,
      List.flatMap_map]
    simp only [List.flatMap_append]

theorem count_intercalate {sep : List Char} (h : '\'' ∉ sep) (xss : List (List Char)) :
    (sep.intercalate xss).count '\'' = (xss.map (List.count '\'')).sum := by
  have hsep : sep.count '\'' = 0 := List.count_eq_zero.2 h
  cases xss with
  | nil => rfl
  | cons xs xss =>
    rw [intercalate_cons, List.count_append, List.count_flatMap, List.map_cons, List.sum_cons]
    congr 2
    refine List.map_congr_left fun ys _ => ?_
    simp [hsep]

namespace Value

mutual

/-- The pieces that the text of a value should have: each text, map, record and document is one literal,
with the text itself in it or the compact JSON text. -/
def pieces : Value → List Piece
  | .null => (chars .null).map .outside
  | .present inner => pieces inner
  | .bool b => (chars (.bool b)).map .outside
  | .int n => (chars (.int n)).map .outside
  | .uint n => (chars (.uint n)).map .outside
  | .float x => (chars (.float x)).map .outside
  | .text s => [.literal s.toList]
  | .list items =>
    .outside '(' :: [.outside ',', .outside ' '].intercalate (itemPieces items) ++ [.outside ')']
  | .map entries => [.literal (toJson (.map entries)).chars]
  | .record type fields => [.literal (toJson (.record type fields)).chars]
  | .document outcome => [.literal (toJson (.document outcome)).chars]

def itemPieces : List Value → List (List Piece)
  | [] => []
  | item :: items => pieces item :: itemPieces items

end

mutual

def jsonTexts : Value → List (List Char)
  | .present inner => jsonTexts inner
  | .list items => itemJsonTexts items
  | .map entries => [(toJson (.map entries)).chars]
  | .record type fields => [(toJson (.record type fields)).chars]
  | .document outcome => [(toJson (.document outcome)).chars]
  | _ => []

def itemJsonTexts : List Value → List (List Char)
  | [] => []
  | item :: items => jsonTexts item ++ itemJsonTexts items

end

variable {v : Value}

theorem itemPieces_eq_map (items : List Value) : itemPieces items = items.map pieces := by
  induction items with
  | nil => rfl
  | cons item items ih => rw [itemPieces, ih, List.map_cons]

theorem itemJsonTexts_eq_flatMap (items : List Value) : itemJsonTexts items = items.flatMap jsonTexts := by
  induction items with
  | nil => rfl
  | cons item items ih => rw [itemJsonTexts, ih, List.flatMap_cons]

theorem pieces_of_isAtom (h : v.isAtom = true) : v.pieces = v.chars.map .outside := by
  cases v with
  | null | bool | int | uint | float => rfl
  | _ => cases h

theorem jsonTexts_of_isAtom (h : v.isAtom = true) : v.jsonTexts = [] := by
  cases v with
  | null | bool | int | uint | float => rfl
  | _ => cases h

theorem pieces_of_writesJson (h : v.writesJson = true) : v.pieces = [.literal v.toJson.chars] := by
  cases v with
  | map | record | document => rfl
  | _ => cases h

theorem jsonTexts_of_writesJson (h : v.writesJson = true) : v.jsonTexts = [v.toJson.chars] := by
  cases v with
  | map | record | document => rfl
  | _ => cases h

theorem reads_pieces (v : Value) : Piece.Reads v.pieces := by
  induction v using literal_induction with
  | atom v hatom =>
    rw [pieces_of_isAtom hatom]
    exact .map_outside (isWord_of_isAtom hatom).not_quote
  | text s => exact .literal _
  | json v hjson =>
    rw [pieces_of_writesJson hjson]
    exact .literal _
  | present inner ih => exact ih
  | list items ih =>
    rw [pieces, itemPieces_eq_map]
    have hitems : Piece.Reads ([.outside ',', .outside ' '].intercalate (items.map pieces)) := by
      cases items with
      | nil => exact .nil
      | cons item items =>
        obtain ⟨hitem, hrest⟩ := List.forall_mem_cons.1 ih
        rw [List.map_cons, intercalate_cons]
        exact hitem.append_separated (List.forall_mem_map.2 hrest)
    exact (hitems.append_outside (by decide) .nil).cons_outside (by decide)

theorem flatMap_listPieces (items : List Value) :
    (pieces (.list items)).flatMap Piece.chars =
      '(' :: [',', ' '].intercalate (items.map fun item => item.pieces.flatMap Piece.chars) ++ [')'] := by
  rw [pieces, List.flatMap_append, List.flatMap_cons, flatMap_intercalate, itemPieces_eq_map, List.map_map]
  rfl

/-- Written as its pieces, the text of a value has each quote of its JSON texts once more. -/
theorem count_pieces (v : Value) :
    (v.pieces.flatMap Piece.chars).count '\'' =
      v.chars.count '\'' + (v.jsonTexts.map (List.count '\'')).sum := by
  induction v using literal_induction with
  | atom v hatom =>
    rw [pieces_of_isAtom hatom, jsonTexts_of_isAtom hatom, Piece.flatMap_chars_outside]
    rfl
  | text s => simp [pieces, jsonTexts, Piece.chars, chars]
  | json v hjson =>
    rw [pieces_of_writesJson hjson, jsonTexts_of_writesJson hjson, chars_of_writesJson hjson]
    simp [Piece.chars, Piece.count_doubleQuotes]
    omega
  | present inner ih => exact ih
  | list items ih =>
    have hsums : (items.map fun item => (item.pieces.flatMap Piece.chars).count '\'').sum =
        (items.map fun item => item.chars.count '\'').sum +
          ((items.flatMap jsonTexts).map (List.count '\'')).sum := by
      induction items with
      | nil => rfl
      | cons item items hrest =>
        obtain ⟨hitem, hitems⟩ := List.forall_mem_cons.1 ih
        simp only [List.map_cons, List.sum_cons, List.flatMap_cons, List.map_append, List.sum_append,
          hitem, hrest hitems]
        omega
    have hseparator : '\'' ∉ [',', ' '] := by decide
    rw [flatMap_listPieces, jsonTexts, itemJsonTexts_eq_flatMap, chars, itemChars_eq_map]
    simpa [List.count_cons, count_intercalate hseparator, Function.comp_def] using hsums

theorem flatMap_pieces (h : ∀ t ∈ v.jsonTexts, '\'' ∉ t) : v.pieces.flatMap Piece.chars = v.chars := by
  induction v using literal_induction with
  | atom v hatom =>
    rw [pieces_of_isAtom hatom]
    exact Piece.flatMap_chars_outside _
  | text s => exact List.append_nil _
  | json v hjson =>
    rw [jsonTexts_of_writesJson hjson] at h
    rw [pieces_of_writesJson hjson, chars_of_writesJson hjson]
    simp [Piece.chars, Piece.doubleQuotes_eq_self (h _ List.mem_cons_self)]
  | present inner ih => exact ih h
  | list items ih =>
    rw [jsonTexts, itemJsonTexts_eq_flatMap] at h
    have hitems : items.map (fun item => item.pieces.flatMap Piece.chars) = items.map chars :=
      List.map_congr_left fun item hitem =>
        ih item hitem fun t ht => h t (List.mem_flatMap.2 ⟨item, hitem, ht⟩)
    rw [flatMap_listPieces, chars, itemChars_eq_map, hitems]

/-- The text of a value, read by the quoting rule, has one literal for each text, map, record and document
exactly if no JSON text in it has a quote, since such quotes are not doubled. The reading ends outside
of every literal exactly if these quotes are even in number. -/
theorem ofChars_literal_iff (v : Value) :
    (Piece.ofChars v.literal.toList = some v.pieces ↔ ∀ t ∈ v.jsonTexts, '\'' ∉ t) ∧
    ((Piece.ofChars v.literal.toList).isSome ↔ Even (v.jsonTexts.map (List.count '\'')).sum) := by
  have hpieces : Piece.ofChars (v.pieces.flatMap Piece.chars) = some v.pieces :=
    Piece.ofChars_flatMap_chars (reads_pieces v)
  have hcount := count_pieces v
  rw [literal, String.toList_ofList]
  refine ⟨⟨fun h => ?_, fun h => ?_⟩, ?_⟩
  · -- what is read as the pieces is their text, which has no quote more
    rw [Piece.flatMap_chars_of_ofChars _ _ h] at hcount
    have hzero : (v.jsonTexts.map (List.count '\'')).sum = 0 := by omega
    intro t ht
    exact List.count_eq_zero.1 (List.sum_eq_zero_iff.1 hzero _ (List.mem_map_of_mem ht))
  · rw [← flatMap_pieces h]
    exact hpieces
  · have heven := (Piece.isSome_ofChars_iff (v.pieces.flatMap Piece.chars)).1 (by rw [hpieces]; rfl)
    rw [hcount, Nat.even_add] at heven
    rw [Piece.isSome_ofChars_iff, heven]

/-- The quote of a text is doubled, the quote of the same text in a map is not, and the reading ends
inside a literal. -/
theorem quoted_map_unread :
    (Value.text "it's").literal = "'it''s'" ∧
      (Value.map [("k", .text "it's")]).literal = "'\x7b\"k\":\"it's\"\x7d'" ∧
      Piece.ofChars (Value.map [("k", .text "it's")]).literal.toList = none ∧
      Piece.ofChars (Value.map [("k", .text "it's")]).literal.toList ≠
        some (Value.map [("k", .text "it's")]).pieces := by
  have hopen : Piece.ofChars (Value.map [("k", .text "it's")]).literal.toList = none := by decide +kernel
  exact ⟨by decide +kernel, by decide +kernel, hopen, by rw [hopen]; exact nofun⟩

end Value

end Criteria
