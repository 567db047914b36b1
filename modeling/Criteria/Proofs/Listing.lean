import Criteria.Proofs.Address

set_option autoImplicit false

namespace Criteria

def nextTree : Address → Address
  | [] => []
  | i :: address => (i + 1) :: address

/-- The marks in the order of their addresses, each once. -/
structure Lists {α : Type} (marks : Address → α → Prop) (l : List (Address × α)) : Prop where
  ordered : l.Pairwise fun x y => x.1 < y.1
  mem_iff : ∀ address a, (address, a) ∈ l ↔ marks address a

/-- What is marked at an address before all failures. -/
def Before {α ε : Type} (fails : Address → ε → Prop) (marks : Address → α → Prop)
    (address : Address) (a : α) : Prop :=
  marks address a ∧ ∀ failed e, fails failed e → address < failed

variable {α β ε : Type} {marks head tail : Address → α → Prop}
  {fails headFails tailFails : Address → ε → Prop} {l m : List (Address × α)}

namespace Lists

theorem nil (h : ∀ address a, ¬ marks address a) : Lists marks [] :=
  ⟨List.Pairwise.nil, fun address a => by simpa using h address a⟩

theorem congr {other : Address → α → Prop} (h : Lists marks l)
    (hiff : ∀ address a, other address a ↔ marks address a) : Lists other l :=
  ⟨h.ordered, fun address a => (h.mem_iff address a).trans (hiff address a).symm⟩

/-- A place comes before all that is below it. -/
theorem cons_root {a : α} (h : Lists marks l) (hnone : ∀ b, ¬ marks [] b) :
    Lists (fun address b => (address = [] ∧ b = a) ∨ marks address b) (([], a) :: l) := by
  refine ⟨List.pairwise_cons.2 ⟨?_, h.ordered⟩, fun address b => ?_⟩
  · rintro ⟨address, b⟩ hmem
    cases address with
    | nil => exact absurd ((h.mem_iff [] b).1 hmem) (hnone b)
    | cons i address => exact List.nil_lt_cons i address
  · rw [List.mem_cons, Prod.mk.injEq, h.mem_iff]

theorem append (hs : Splits marks head tail) (hl : Lists head l) (hm : Lists tail m) :
    Lists marks (l.map (fun x => (0 :: x.1, x.2)) ++ m.map fun x => (nextTree x.1, x.2)) := by
  have htail : ∀ x ∈ m, ∃ i address, x.1 = i :: address := by
    rintro ⟨address, a⟩ hmem
    cases address with
    | nil => exact absurd ((hm.mem_iff [] a).1 hmem) (hs.tailNone a)
    | cons i address => exact ⟨i, address, rfl⟩
  constructor
  · rw [List.pairwise_append, List.pairwise_map, List.pairwise_map]
    refine ⟨hl.ordered.imp fun h => List.cons_lt_cons_iff.2 (.inr ⟨rfl, h⟩), ?_, ?_⟩
    · refine hm.ordered.imp_of_mem fun {x y} hx hy h => ?_
      obtain ⟨i, a, hi⟩ := htail x hx
      obtain ⟨j, b, hj⟩ := htail y hy
      rw [hi, hj] at h ⊢
      exact succ_cons_lt_succ_cons.2 h
    · intro x hx y hy
      obtain ⟨x, -, rfl⟩ := List.mem_map.1 hx
      obtain ⟨y, hmem, rfl⟩ := List.mem_map.1 hy
      obtain ⟨j, b, hj⟩ := htail y hmem
      rw [hj]
      exact List.cons_lt_cons_iff.2 (.inl (Nat.succ_pos j))
  · intro address a
    rw [List.mem_append, List.mem_map, List.mem_map]
    constructor
    · rintro (⟨⟨address, b⟩, hmem, heq⟩ | ⟨⟨address, b⟩, hmem, heq⟩)
      · obtain ⟨rfl, rfl⟩ := Prod.mk.inj heq
        exact (hs.zero address b).2 ((hl.mem_iff address b).1 hmem)
      · obtain ⟨i, rest, rfl : address = i :: rest⟩ := htail _ hmem
        obtain ⟨rfl, rfl⟩ := Prod.mk.inj heq
        exact (hs.succ i rest b).2 ((hm.mem_iff _ b).1 hmem)
    · intro hmark
      match address with
      | [] => exact absurd hmark (hs.none a)
      | 0 :: address => exact .inl ⟨(address, a), (hl.mem_iff _ _).2 ((hs.zero _ _).1 hmark), rfl⟩
      | (i + 1) :: address =>
        exact .inr ⟨(i :: address, a), (hm.mem_iff _ _).2 ((hs.succ _ _ _).1 hmark), rfl⟩

end Lists

namespace Splits

/-- What is read off the marks splits as they do. -/
theorem through (h : Splits marks head tail) (reads : α → β → Prop) :
    Splits (fun address b => ∃ a, marks address a ∧ reads a b)
      (fun address b => ∃ a, head address a ∧ reads a b)
      (fun address b => ∃ a, tail address a ∧ reads a b) where
  none := by
    rintro b ⟨a, ha, -⟩
    exact h.none a ha
  zero := fun address b => by simp only [h.zero]
  succ := fun i address b => by simp only [h.succ]
  tailNone := by
    rintro b ⟨a, ha, -⟩
    exact h.tailNone a ha

theorem before_zero_iff (hm : Splits marks head tail) (hf : Splits fails headFails tailFails)
    (address : Address) (a : α) :
    Before fails marks (0 :: address) a ↔ Before headFails head address a := by
  unfold Before
  rw [hm.zero]
  refine and_congr_right fun _ => ⟨fun h failed e hfails => ?_, fun h failed e hfails => ?_⟩
  · have hlt := h (0 :: failed) e ((hf.zero failed e).2 hfails)
    simpa [List.cons_lt_cons_iff] using hlt
  · match failed with
    | [] => exact absurd hfails (hf.none e)
    | 0 :: failed =>
      exact List.cons_lt_cons_iff.2 (.inr ⟨rfl, h failed e ((hf.zero failed e).1 hfails)⟩)
    | (i + 1) :: failed => exact List.cons_lt_cons_iff.2 (.inl (Nat.succ_pos i))

theorem before (hm : Splits marks head tail) (hf : Splits fails headFails tailFails)
    (hnone : ∀ address e, ¬ headFails address e) :
    Splits (Before fails marks) (Before headFails head) (Before tailFails tail) where
  none := fun a h => hm.none a h.1
  zero := before_zero_iff hm hf
  tailNone := fun a h => hm.tailNone a h.1
  succ := by
    intro i address a
    unfold Before
    rw [hm.succ]
    refine and_congr_right fun _ => ⟨fun h failed e hfails => ?_, fun h failed e hfails => ?_⟩
    · cases failed with
      | nil => exact absurd hfails (hf.tailNone e)
      | cons j failed =>
        exact succ_cons_lt_succ_cons.1 (h ((j + 1) :: failed) e ((hf.succ j failed e).2 hfails))
    · match failed with
      | [] => exact absurd hfails (hf.none e)
      | 0 :: failed => exact absurd ((hf.zero failed e).1 hfails) (hnone failed e)
      | (j + 1) :: failed =>
        exact succ_cons_lt_succ_cons.2 (h (j :: failed) e ((hf.succ j failed e).1 hfails))

/-- Once the first tree fails, nothing of the others comes before. -/
theorem before_of_head_fails (hm : Splits marks head tail) (hf : Splits fails headFails tailFails)
    {first : Address} {e : ε} (hfirst : headFails first e) :
    Splits (Before fails marks) (Before headFails head) (fun _ _ => False) where
  none := fun a h => hm.none a h.1
  zero := before_zero_iff hm hf
  tailNone := fun _ => not_false
  succ := by
    intro i address a
    rw [iff_false]
    rintro ⟨-, hbefore⟩
    have hlt := hbefore (0 :: first) e ((hf.zero first e).2 hfirst)
    rcases List.cons_lt_cons_iff.1 hlt with hi | ⟨hi, -⟩ <;> omega

end Splits

end Criteria
