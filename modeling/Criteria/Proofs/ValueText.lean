import Mathlib
import Criteria.Value.Printer

set_option autoImplicit false

namespace Criteria

def isWordChar (c : Char) : Bool := c.isAlphanum || c = '.' || c = '-'

/-- A word has no quote, bracket, comma or blank in it. -/
structure IsWord (cs : List Char) : Prop where
  ne_nil : cs ≠ []
  chars : ∀ c ∈ cs, isWordChar c = true

namespace IsWord

variable {cs ds : List Char}

theorem append_left (hcs : ∀ c ∈ cs, isWordChar c = true) (hds : IsWord ds) : IsWord (cs ++ ds) := by
  refine ⟨by simp [hds.ne_nil], fun c hc => ?_⟩
  rcases List.mem_append.1 hc with hc | hc
  · exact hcs c hc
  · exact hds.chars c hc

theorem append_right (hcs : IsWord cs) (hds : ∀ c ∈ ds, isWordChar c = true) : IsWord (cs ++ ds) := by
  refine ⟨by simp [hcs.ne_nil], fun c hc => ?_⟩
  rcases List.mem_append.1 hc with hc | hc
  · exact hcs.chars c hc
  · exact hds c hc

theorem not_quote (h : IsWord cs) : ∀ c ∈ cs, c ≠ '\'' := by
  rintro c hc rfl
  exact absurd (h.chars _ hc) (by decide)

theorem toDigits (n : Nat) : IsWord (Nat.toDigits 10 n) := by
  refine ⟨Nat.toDigits_ne_nil, fun c hc => ?_⟩
  simp [isWordChar, Char.isAlphanum, Nat.isDigit_of_mem_toDigits (by decide) (by decide) hc]

end IsWord

theorem isWordChar_zeros (n : Nat) : ∀ c ∈ List.replicate n '0', isWordChar c = true := by
  intro c hc
  obtain ⟨-, rfl⟩ := List.mem_replicate.1 hc
  rfl

theorem Decimal.isWord_plainText (d : Digits) : IsWord (plainText d false).toList := by
  have hdigits := IsWord.toDigits d.digits
  unfold plainText
  simp only [Bool.false_eq_true, ↓reduceIte, String.append_empty]
  split
  · rw [String.toList_ofList]
    exact hdigits.append_right (isWordChar_zeros _)
  · split
    · simp only [String.toList_append, String.toList_ofList]
      refine .append_right (.append_left (fun c hc => ?_) ⟨by simp, by simp [isWordChar]⟩) fun c hc => ?_
      · exact hdigits.chars c (List.mem_of_mem_take hc)
      · exact hdigits.chars c (List.mem_of_mem_drop hc)
    · simp only [String.toList_append, String.toList_ofList]
      refine .append_right ⟨by simp, by simp [isWordChar]⟩ fun c hc => ?_
      rcases List.mem_append.1 hc with hc | hc
      · exact isWordChar_zeros _ c hc
      · exact hdigits.chars c hc

theorem Decimal.isWord_literal (bits : Nat) : IsWord (literal.writeBits bits).toList := by
  unfold Layout.writeBits
  simp only [String.toList_append]
  refine .append_left ?_ ?_
  · split <;> simp [isWordChar]
  · split
    · change IsWord "0".toList
      exact ⟨by simp, by simp [isWordChar]⟩
    · exact isWord_plainText _

namespace Value

theorem isWord_floatText (x : Float) : IsWord (floatText x).toList := by
  unfold floatText
  split
  · exact ⟨by simp, by simp [isWordChar]⟩
  · split
    · split
      · exact ⟨by simp, by simp [isWordChar]⟩
      · exact ⟨by simp, by simp [isWordChar]⟩
    · exact Decimal.isWord_literal _

theorem isWord_nat (n : Nat) : IsWord (toString n).toList := by
  change IsWord n.repr.toList
  rw [Nat.toList_repr]
  exact .toDigits n

theorem isWord_int (n : Int) : IsWord (toString n).toList := by
  cases n with
  | ofNat m => exact isWord_nat m
  | negSucc m =>
    change IsWord ("-" ++ m.succ.repr).toList
    rw [String.toList_append, Nat.toList_repr]
    exact .append_left (by simp [isWordChar]) (.toDigits _)

def isAtom : Value → Bool
  | .null | .bool _ | .int _ | .uint _ | .float _ => true
  | _ => false

def writesJson : Value → Bool
  | .map _ | .record _ _ | .document _ => true
  | _ => false

theorem isWord_of_isAtom {v : Value} (h : v.isAtom = true) : IsWord v.chars := by
  cases v with
  | null => exact ⟨by simp [chars], by simp [chars, isWordChar]⟩
  | bool b =>
    cases b
    · exact ⟨by simp [chars], by simp [chars, isWordChar]⟩
    · exact ⟨by simp [chars], by simp [chars, isWordChar]⟩
  | int n => exact isWord_int n.toInt
  | uint n => exact isWord_nat n.toNat
  | float x => exact isWord_floatText x
  | _ => cases h

theorem chars_of_writesJson {v : Value} (h : v.writesJson = true) :
    v.chars = '\'' :: v.toJson.chars ++ ['\''] := by
  cases v with
  | map entries => rfl
  | record type fields => rfl
  | document outcome => rfl
  | _ => cases h

/-- Induction over what a literal is made of: only presence and lists are taken apart. -/
@[elab_as_elim]
theorem literal_induction {motive : Value → Prop} (atom : ∀ v, v.isAtom = true → motive v)
    (text : ∀ s, motive (.text s)) (json : ∀ v, v.writesJson = true → motive v)
    (present : ∀ inner, motive inner → motive (.present inner))
    (list : ∀ items, (∀ item ∈ items, motive item) → motive (.list items)) : ∀ v, motive v
  | .null => atom _ rfl
  | .bool _ => atom _ rfl
  | .int _ => atom _ rfl
  | .uint _ => atom _ rfl
  | .float _ => atom _ rfl
  | .text s => text s
  | .map _ => json _ rfl
  | .record _ _ => json _ rfl
  | .document _ => json _ rfl
  | .present inner => present inner (literal_induction atom text json present list inner)
  | .list items => list items fun item _ => literal_induction atom text json present list item

theorem itemChars_eq_map (items : List Value) : itemChars items = items.map chars := by
  induction items with
  | nil => rfl
  | cons item items ih => rw [itemChars, ih, List.map_cons]

end Value

theorem intercalate_cons {α : Type} (sep xs : List α) (xss : List (List α)) :
    sep.intercalate (xs :: xss) = xs ++ xss.flatMap (sep ++ ·) := by
  induction xss generalizing xs with
  | nil => simp [List.intercalate]
  | cons ys xss ih =>
    rw [List.intercalate_cons_cons, ih ys, List.flatMap_cons, List.append_assoc, List.append_assoc]

end Criteria
