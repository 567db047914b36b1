/-!
Places in a walk over trees. An address lists the positions on the way down to a place. Addresses
are ordered as lists are, so a place comes before all that is below it, and that comes before its
later siblings. What a walk finds first is what is marked at the least marked address, and a walk that
ends at its first failure fails with the first of all the failures that are marked.
-/

set_option autoImplicit false

namespace Criteria

abbrev Address := List Nat

theorem succ_cons_lt_succ_cons {i j : Nat} {a b : Address} :
    (i + 1) :: a < (j + 1) :: b ↔ i :: a < j :: b := by
  simp [List.cons_lt_cons_iff]

def First {α : Type} (marks : Address → α → Prop) (a : α) : Prop :=
  ∃ address, marks address a ∧ ∀ other b, marks other b → ¬ other < address

/-- The marks on a list of trees are those of the first tree, below position zero, and those of the
others, one position further. A list has no address of its own. -/
structure Splits {α : Type} (marks head tail : Address → α → Prop) : Prop where
  none : ∀ a, ¬ marks [] a
  zero : ∀ address a, marks (0 :: address) a ↔ head address a
  succ : ∀ i address a, marks ((i + 1) :: address) a ↔ tail (i :: address) a
  tailNone : ∀ a, ¬ tail [] a

variable {α : Type} {marks head tail : Address → α → Prop}

theorem First.exists {a : α} (h : First marks a) : ∃ address, marks address a := by
  obtain ⟨address, hmark, -⟩ := h
  exact ⟨address, hmark⟩

theorem first_congr {other : Address → α → Prop} (h : ∀ address a, marks address a ↔ other address a)
    (a : α) : First marks a ↔ First other a := by
  simp only [First, h]

theorem first_iff_of_root {b : α} (hroot : marks [] b) (a : α) : First marks a ↔ marks [] a := by
  constructor
  · rintro ⟨address, hmark, hleast⟩
    cases address with
    | nil => exact hmark
    | cons i address => exact absurd (List.nil_lt_cons i address) (hleast [] b hroot)
  · intro hmark
    exact ⟨[], hmark, fun other _ _ => List.not_lt_nil other⟩

namespace Splits

theorem not_marks_iff (h : Splits marks head tail) :
    (∀ address a, ¬ marks address a) ↔
      (∀ address a, ¬ head address a) ∧ ∀ address a, ¬ tail address a := by
  constructor
  · intro hnone
    refine ⟨fun address a => mt (h.zero address a).2 (hnone _ a), fun address a => ?_⟩
    cases address with
    | nil => exact h.tailNone a
    | cons i address => exact mt (h.succ i address a).2 (hnone _ a)
  · rintro ⟨hhead, htail⟩ address a
    match address with
    | [] => exact h.none a
    | 0 :: address => exact mt (h.zero address a).1 (hhead address a)
    | (i + 1) :: address => exact mt (h.succ i address a).1 (htail _ a)

theorem first_of_head (h : Splits marks head tail) {a : α} (hfirst : First head a) :
    First marks a := by
  obtain ⟨address, hmark, hleast⟩ := hfirst
  refine ⟨0 :: address, (h.zero address a).2 hmark, fun other b hother hlt => ?_⟩
  match other with
  | [] => exact h.none b hother
  | 0 :: other =>
    rcases List.cons_lt_cons_iff.1 hlt with hzero | ⟨-, hlt⟩
    · exact Nat.lt_irrefl 0 hzero
    · exact hleast other b ((h.zero other b).1 hother) hlt
  | (i + 1) :: other =>
    rcases List.cons_lt_cons_iff.1 hlt with hi | ⟨hi, -⟩ <;> omega

theorem first_of_tail (h : Splits marks head tail) (hhead : ∀ address b, ¬ head address b) {a : α}
    (hfirst : First tail a) : First marks a := by
  obtain ⟨address, hmark, hleast⟩ := hfirst
  cases address with
  | nil => exact absurd hmark (h.tailNone a)
  | cons i address =>
    refine ⟨(i + 1) :: address, (h.succ i address a).2 hmark, fun other b hother hlt => ?_⟩
    match other with
    | [] => exact h.none b hother
    | 0 :: other => exact hhead other b ((h.zero other b).1 hother)
    | (j + 1) :: other =>
      exact hleast (j :: other) b ((h.succ j other b).1 hother) (succ_cons_lt_succ_cons.1 hlt)

theorem head_or_tail_of_first (h : Splits marks head tail) {a : α} (hfirst : First marks a) :
    First head a ∨ (∀ address b, ¬ head address b) ∧ First tail a := by
  obtain ⟨address, hmark, hleast⟩ := hfirst
  match address with
  | [] => exact absurd hmark (h.none a)
  | 0 :: address =>
    refine .inl ⟨address, (h.zero address a).1 hmark, fun other b hother hlt => ?_⟩
    exact hleast (0 :: other) b ((h.zero other b).2 hother)
      (List.cons_lt_cons_iff.2 (.inr ⟨rfl, hlt⟩))
  | (i + 1) :: address =>
    refine .inr ⟨fun other b hother => ?_, i :: address, (h.succ i address a).1 hmark,
      fun other b hother hlt => ?_⟩
    · exact hleast (0 :: other) b ((h.zero other b).2 hother)
        (List.cons_lt_cons_iff.2 (.inl (Nat.succ_pos i)))
    · cases other with
      | nil => exact h.tailNone b hother
      | cons j other =>
        exact hleast ((j + 1) :: other) b ((h.succ j other b).2 hother)
          (succ_cons_lt_succ_cons.2 hlt)

theorem first_iff (h : Splits marks head tail) (a : α) :
    First marks a ↔ First head a ∨ (∀ address b, ¬ head address b) ∧ First tail a := by
  constructor
  · exact h.head_or_tail_of_first
  · rintro (hhead | ⟨hnone, htail⟩)
    · exact h.first_of_head hhead
    · exact h.first_of_tail hnone htail

theorem first_iff_first_head (h : Splits marks head tail) {address : Address} {b : α}
    (hmark : head address b) (a : α) : First marks a ↔ First head a := by
  rw [h.first_iff]
  constructor
  · rintro (hhead | ⟨hnone, -⟩)
    · exact hhead
    · exact absurd hmark (hnone address b)
  · exact .inl

theorem first_iff_first_tail (h : Splits marks head tail) (hnone : ∀ address b, ¬ head address b)
    (a : α) : First marks a ↔ First tail a := by
  rw [h.first_iff]
  constructor
  · rintro (⟨address, hmark, -⟩ | ⟨-, htail⟩)
    · exact absurd hmark (hnone address a)
    · exact htail
  · exact fun htail => .inr ⟨hnone, htail⟩

end Splits

theorem bind_eq_ok {ε α β : Type} {x : Except ε α} {f : α → Except ε β} {b : β} :
    x.bind f = .ok b ↔ ∃ a, x = .ok a ∧ f a = .ok b := by
  cases x <;> simp [Except.bind]

theorem map_eq_ok {ε α β : Type} {x : Except ε α} {f : α → β} {b : β} :
    x.map f = .ok b ↔ ∃ a, x = .ok a ∧ f a = b := by
  cases x <;> simp [Except.map]

theorem map_eq_error {ε α β : Type} {x : Except ε α} {f : α → β} {e : ε} :
    x.map f = .error e ↔ x = .error e := by
  cases x <;> simp [Except.map]

/-- A result that fails with what is marked first, and succeeds if nothing is marked. -/
structure FailsFirst {ε β : Type} (marks : Address → ε → Prop) (result : Except ε β) : Prop where
  ok_iff : (∃ b, result = .ok b) ↔ ∀ address e, ¬ marks address e
  error_iff : ∀ e, result = .error e ↔ First marks e

namespace FailsFirst

variable {ε β γ : Type} {marks head tail : Address → ε → Prop} {x : Except ε β}

theorem of_none (h : ∀ address e, ¬ marks address e) (b : β) :
    FailsFirst marks (.ok b : Except ε β) := by
  constructor
  · exact ⟨fun _ => h, fun _ => ⟨b, rfl⟩⟩
  · intro e
    constructor
    · rintro ⟨⟩
    · rintro ⟨address, hmark, -⟩
      exact absurd hmark (h address e)

theorem of_first {e : ε} (hfirst : First marks e) (hunique : ∀ other, First marks other → other = e) :
    FailsFirst marks (.error e : Except ε β) := by
  constructor
  · constructor
    · rintro ⟨b, ⟨⟩⟩
    · intro hnone
      obtain ⟨address, hmark⟩ := hfirst.exists
      exact absurd hmark (hnone address e)
  · intro other
    constructor
    · rintro ⟨⟩
      exact hfirst
    · intro hother
      rw [hunique other hother]

theorem of_root {e : ε} (h : ∀ other, marks [] other ↔ other = e) :
    FailsFirst marks (.error e : Except ε β) := by
  have hroot : marks [] e := (h e).2 rfl
  have hfirst := first_iff_of_root hroot
  exact of_first ((hfirst e).2 hroot) fun other hother => (h other).1 ((hfirst other).1 hother)

theorem congr {other : Address → ε → Prop} (h : FailsFirst marks x)
    (hiff : ∀ address e, other address e ↔ marks address e) : FailsFirst other x :=
  ⟨by simp only [hiff, h.ok_iff], fun e => (h.error_iff e).trans (first_congr hiff e).symm⟩

theorem first_of_error {e : ε} (h : FailsFirst marks (.error e : Except ε β)) :
    First marks e ∧ ∀ other, First marks other → other = e :=
  ⟨(h.error_iff e).1 rfl, fun other hother => (Except.error.inj ((h.error_iff other).2 hother)).symm⟩

theorem exists_error_iff (h : FailsFirst marks x) :
    (∃ e, x = .error e) ↔ ∃ address e, marks address e := by
  cases x with
  | ok b =>
    have hnone := h.ok_iff.1 ⟨b, rfl⟩
    simp [hnone]
  | error e =>
    obtain ⟨address, hmark⟩ := h.first_of_error.1.exists
    exact ⟨fun _ => ⟨address, e, hmark⟩, fun _ => ⟨e, rfl⟩⟩

theorem of_head (hs : Splits marks head tail) {e : ε}
    (h : FailsFirst head (.error e : Except ε β)) : FailsFirst marks (.error e : Except ε γ) := by
  obtain ⟨hfirst, hunique⟩ := h.first_of_error
  obtain ⟨address, hmark⟩ := hfirst.exists
  have hiff := hs.first_iff_first_head hmark
  exact of_first ((hiff e).2 hfirst) fun other hother => hunique other ((hiff other).1 hother)

theorem of_tail (hs : Splits marks head tail) (hnone : ∀ address e, ¬ head address e)
    (h : FailsFirst tail x) : FailsFirst marks x := by
  constructor
  · rw [h.ok_iff, hs.not_marks_iff]
    exact ⟨fun htail => ⟨hnone, htail⟩, fun hboth => hboth.2⟩
  · intro e
    rw [h.error_iff, hs.first_iff_first_tail hnone]

theorem bind (hs : Splits marks head tail) {f : β → Except ε γ} (hx : FailsFirst head x)
    (hf : ∀ b, x = .ok b → FailsFirst tail (f b)) : FailsFirst marks (x.bind f) := by
  cases x with
  | ok b => exact of_tail hs (hx.ok_iff.1 ⟨b, rfl⟩) (hf b rfl)
  | error e => exact of_head hs hx

theorem map (f : β → γ) (h : FailsFirst marks x) : FailsFirst marks (x.map f) := by
  cases x with
  | ok b => exact of_none (h.ok_iff.1 ⟨b, rfl⟩) (f b)
  | error e =>
    obtain ⟨hfirst, hunique⟩ := h.first_of_error
    exact of_first hfirst hunique

end FailsFirst

end Criteria
