import Mathlib.Data.List.Chain
import Criteria.Toml.Token

set_option autoImplicit false

namespace Criteria.Toml

def escaped (c : Char) : List Char :=
  if c = '"' ∨ c = '\\' then ['\\', c]
  else if isPrintable c then [c]
  else ['\\', 'u', '0', '0', Nat.digitChar (c.toNat / 16), Nat.digitChar (c.toNat % 16)]

def quoted (s : String) : List Char := '"' :: (s.toList.flatMap escaped ++ ['"'])

namespace Token

def chars : Token → List Char
  | .newline => ['\n']
  | .blank s => s.toList
  | .comma => [',']
  | .dot => ['.']
  | .equals => ['=']
  | .openSquare => ['[']
  | .closeSquare => [']']
  | .openCurly => ['\x7b']
  | .closeCurly => ['\x7d']
  | .text s _ => quoted s
  | .bare s => s.toList

/-- A token that its characters can be read as. -/
def Legible : Token → Prop
  | .bare s => (∃ c, s.toList.head? = some c ∧ c ≠ '"' ∧ c ≠ '\'') ∧
      ∀ c ∈ s.toList, endsBare c = false
  | .blank s => s ≠ "" ∧ ∀ c ∈ s.toList, c = ' ' ∨ c = '\t'
  | .text _ multiline => multiline = false
  | _ => True

def continues : Token → Char → Bool
  | .bare _, c => !endsBare c
  | .blank _, c => c = ' ' || c = '\t'
  | .text _ _, c => c = '"'
  | _, _ => false

/-- The second token may stand right behind the first. -/
def Leaves (t u : Token) : Prop := ∀ c ∈ u.chars.head?, t.continues c = false

theorem chars_ne_nil {t : Token} (h : t.Legible) : t.chars ≠ [] := by
  cases t with
  | bare s =>
    obtain ⟨⟨c, hc, -⟩, -⟩ := h
    intro hnil
    rw [show s.toList = [] from hnil] at hc
    cases hc
  | blank s => exact mt String.toList_eq_nil_iff.1 h.1
  | _ => exact List.cons_ne_nil _ _

end Token

namespace State

variable {state next : State} {c : Char} {rest chars : List Char} {found : List Token} {t : Token}

theorem tokens_step (h : state.step c = some (next, found)) :
    state.tokens (c :: rest) = (next.tokens rest).map (found ++ ·) := by
  rw [tokens, h]

theorem tokens_quiet (h : state.step c = some (next, [])) :
    state.tokens (c :: rest) = next.tokens rest := by
  rw [tokens_step h]
  cases next.tokens rest <;> rfl

theorem tokens_single (h : idle.step c = some (idle, [t])) :
    idle.tokens ([c] ++ rest) = (idle.tokens rest).map (t :: ·) :=
  tokens_step h

/-- What follows a complete token is read as at the beginning of a line. -/
theorem tokens_after (h : state.step c = some (after t c)) :
    state.tokens (c :: rest) = (idle.tokens (c :: rest)).map (t :: ·) := by
  rw [tokens_step h, tokens_step (c := c) rfl, Option.map_map]
  rfl

theorem tokens_collect {collect : List Char → State} {s : List Char}
    (h : ∀ s, ∀ c ∈ chars, (collect s).step c = some (collect (c :: s), [])) :
    (collect s).tokens (chars ++ rest) = (collect (chars.reverse ++ s)).tokens rest := by
  induction chars generalizing s with
  | nil => rfl
  | cons c chars ih =>
    rw [List.cons_append, tokens_quiet (h s c List.mem_cons_self),
      ih fun s c hc => h s c (List.mem_cons_of_mem _ hc)]
    simp

/-- A run of characters that one kind of state collects, up to a character that ends it. -/
theorem tokens_run (collect : List Char → State) (make : String → Token) {s : String} (hne : s ≠ "")
    (hstart : ∀ c ∈ s.toList.head?, idle.step c = some (collect [c], []))
    (hcollect : ∀ chars, ∀ c ∈ s.toList, (collect chars).step c = some (collect (c :: chars), []))
    (hfinish : ∀ chars, (collect chars).finish = some [make (String.ofList chars.reverse)])
    (hend : ∀ chars, ∀ c ∈ rest.head?,
      (collect chars).step c = some (after (make (String.ofList chars.reverse)) c)) :
    idle.tokens (s.toList ++ rest) = (idle.tokens rest).map (make s :: ·) := by
  obtain ⟨first, others, hs⟩ := List.exists_cons_of_ne_nil (mt String.toList_eq_nil_iff.1 hne)
  have hword : String.ofList (others.reverse ++ [first]).reverse = s := by
    rw [List.reverse_append, List.reverse_reverse, List.reverse_singleton, List.singleton_append,
      ← hs, String.ofList_toList]
  rw [hs] at hstart hcollect ⊢
  rw [List.cons_append, tokens_quiet (hstart first rfl),
    tokens_collect fun chars c hc => hcollect chars c (List.mem_cons_of_mem _ hc)]
  cases rest with
  | nil =>
    rw [tokens, hfinish, hword]
    rfl
  | cons c rest =>
    have hc := hend (others.reverse ++ [first]) c rfl
    rw [hword] at hc
    exact tokens_after hc

theorem between_of_bare (hbasic : c ≠ '"') (hliteral : c ≠ '\'') (h : endsBare c = false) :
    between c = (.bare [c], []) := by
  unfold between
  split <;> simp_all [endsBare]

theorem hexDigit?_digitChar : ∀ n < 16, hexDigit? (Nat.digitChar n) = some n := by
  decide

/-- A character that is not printable is one of the first in the character set. -/
theorem toNat_lt_of_not_printable (h : isPrintable c = false) : c.toNat < 128 := by
  simp only [isPrintable, Bool.or_eq_false_iff, Bool.and_eq_false_iff, decide_eq_false_iff_not,
    Decidable.not_not] at h
  rcases h.2 with hsmall | rfl
  · have hlt : c.toNat < ' '.toNat := Nat.not_le.1 hsmall
    exact Nat.lt_trans hlt (by decide)
  · decide

theorem tokens_escaped {s : List Char} (c : Char) :
    (State.line .basic s).tokens (escaped c ++ rest) = (State.line .basic (c :: s)).tokens rest := by
  unfold escaped
  split
  · rename_i hspecial
    rcases hspecial with rfl | rfl <;> exact (tokens_quiet rfl).trans (tokens_quiet rfl)
  · rename_i hplain
    rw [not_or] at hplain
    split
    · rename_i hprintable
      refine tokens_quiet ?_
      simp [step, inLine, Quote.char, hplain, hprintable]
    · rename_i hhidden
      have hlt := toNat_lt_of_not_printable (Bool.eq_false_iff.2 hhidden)
      have hhigh := hexDigit?_digitChar (c.toNat / 16) (by omega)
      have hlow := hexDigit?_digitChar (c.toNat % 16) (by omega)
      have hvalue : 16 * (c.toNat / 16) + c.toNat % 16 = c.toNat := Nat.div_add_mod _ _
      have hvalid : c.toNat.isValidChar := .inl (by omega)
      have hfirst : (State.code false s 2 0).step (Nat.digitChar (c.toNat / 16)) =
          some (.code false s 1 (c.toNat / 16), []) := by
        simp [step, hhigh]
      have hsecond : (State.code false s 1 (c.toNat / 16)).step (Nat.digitChar (c.toNat % 16)) =
          some (.line .basic (c :: s), []) := by
        simp [step, hlow, hvalue, hvalid, inText]
      calc
        _ = (State.code false s 2 0).tokens (Nat.digitChar (c.toNat / 16) ::
            Nat.digitChar (c.toNat % 16) :: rest) :=
          (tokens_quiet rfl).trans ((tokens_quiet rfl).trans ((tokens_quiet rfl).trans
            (tokens_quiet rfl)))
        _ = (State.line .basic (c :: s)).tokens rest :=
          (tokens_quiet hfirst).trans (tokens_quiet hsecond)

theorem tokens_line {s : List Char} (chars : List Char) :
    (State.line .basic s).tokens (chars.flatMap escaped ++ rest) =
      (State.line .basic (chars.reverse ++ s)).tokens rest := by
  induction chars generalizing s with
  | nil => rfl
  | cons c chars ih => simp [tokens_escaped, ih]

theorem head_escaped (c : Char) : ∃ d others, escaped c = d :: others ∧ d ≠ '"' := by
  unfold escaped
  split
  · exact ⟨_, _, rfl, by decide⟩
  · rename_i hplain
    split
    · exact ⟨_, _, rfl, fun h => hplain (.inl h)⟩
    · exact ⟨_, _, rfl, by decide⟩

theorem tokens_opening (h : c ≠ '"') :
    (State.opening .basic false).tokens (c :: rest) = (State.line .basic []).tokens (c :: rest) := by
  simp [tokens, step, Quote.char, h]

/-- The empty text is not complete before the next character: two quotes may open several lines. -/
theorem tokens_quoted (s : String) (hrest : ∀ c ∈ rest.head?, c ≠ '"') :
    idle.tokens (quoted s ++ rest) = (idle.tokens rest).map (.text s false :: ·) := by
  have hopen : idle.tokens (quoted s ++ rest) =
      (State.opening .basic false).tokens (s.toList.flatMap escaped ++ '"' :: rest) := by
    rw [quoted, List.cons_append, List.append_assoc]
    exact tokens_quiet rfl
  rw [hopen]
  cases hs : s.toList with
  | nil =>
    have hclosed : closed [] false = .text s false := by
      rw [closed, List.reverse_nil, ← hs, String.ofList_toList]
    have hsecond : (State.opening .basic false).step '"' = some (.opening .basic true, []) := rfl
    rw [List.flatMap_nil, List.nil_append, tokens_quiet hsecond]
    cases rest with
    | nil => simp [tokens, finish, hclosed]
    | cons c rest =>
      have hc : c ≠ '"' := hrest c rfl
      rw [← hclosed]
      exact tokens_after (by simp [step, Quote.char, hc])
  | cons first others =>
    have hclosed : closed (others.reverse ++ [first]) false = .text s false := by
      rw [closed, ← List.reverse_cons, List.reverse_reverse, ← hs, String.ofList_toList]
    have hhead : ∃ d others', (first :: others).flatMap escaped ++ '"' :: rest = d :: others' ∧
        d ≠ '"' := by
      obtain ⟨d, ds, hd, hne⟩ := head_escaped first
      exact ⟨d, _, by rw [List.flatMap_cons, hd, List.cons_append, List.cons_append], hne⟩
    obtain ⟨d, others', hchars, hne⟩ := hhead
    rw [hchars, tokens_opening hne, ← hchars, tokens_line, List.reverse_cons, List.append_nil,
      ← hclosed]
    have hend : ∀ chars, (State.line .basic chars).step '"' = some (.idle, [closed chars false]) :=
      fun _ => rfl
    exact tokens_step (hend _)

/-- A legible token is read back, unless the next character is one that extends it. -/
theorem tokens_token (h : t.Legible) (hrest : ∀ c ∈ rest.head?, t.continues c = false) :
    idle.tokens (t.chars ++ rest) = (idle.tokens rest).map (t :: ·) := by
  cases t with
  | bare s =>
    obtain ⟨⟨first, hfirst, hbasic, hliteral⟩, hchars⟩ := h
    have hne : s ≠ "" := by
      rintro rfl
      cases hfirst
    refine tokens_run .bare .bare hne (fun c hc => ?_) (fun chars c hc => ?_)
      (fun _ => rfl) fun chars c hc => ?_
    · obtain rfl := Option.some.inj (hfirst.symm.trans hc)
      exact congrArg some (between_of_bare hbasic hliteral (hchars _ (List.mem_of_head? hfirst)))
    · simp [step, hchars c hc]
    · have hends : endsBare c = true := by simpa [Token.continues] using hrest c hc
      simp [step, hends]
  | blank s =>
    obtain ⟨hne, hchars⟩ := h
    refine tokens_run .blank .blank hne (fun c hc => ?_) (fun chars c hc => ?_)
      (fun _ => rfl) fun chars c hc => ?_
    · rcases hchars c (List.mem_of_head? hc) with rfl | rfl <;> rfl
    · simp [step, hchars c hc]
    · have hends : ¬ (c = ' ' ∨ c = '\t') := by simpa [Token.continues] using hrest c hc
      simp [step, hends]
  | text s multiline =>
    obtain rfl : multiline = false := h
    exact tokens_quoted s fun c hc => by simpa [Token.continues] using hrest c hc
  | _ => exact tokens_single rfl

/-- Legible tokens of which none runs into the next are read back. -/
theorem tokens_flatMap_chars {tokens : List Token} (hlegible : ∀ t ∈ tokens, t.Legible)
    (hleaves : tokens.IsChain Token.Leaves) :
    idle.tokens (tokens.flatMap Token.chars) = some tokens := by
  induction tokens with
  | nil => rfl
  | cons t others ih =>
    obtain ⟨ht, hothers⟩ := List.forall_mem_cons.1 hlegible
    rw [List.flatMap_cons, tokens_token ht, ih hothers hleaves.tail]
    · rfl
    · cases others with
      | nil => simp
      | cons u others =>
        intro c hc
        have hne : u.chars ≠ [] := Token.chars_ne_nil (hothers u List.mem_cons_self)
        rw [List.flatMap_cons, List.head?_append_of_ne_nil _ hne] at hc
        exact (List.isChain_cons_cons.1 hleaves).1 c hc

end State

theorem tokens?_ofList {chars : List Char} (h : chars.head? ≠ some '\ufeff') :
    tokens? (String.ofList chars) = State.idle.tokens chars := by
  unfold tokens?
  rw [String.toList_ofList]
  split
  · exact absurd rfl h
  · rfl

end Criteria.Toml
