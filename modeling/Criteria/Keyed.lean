/-!
Finite maps with text keys. A map is its list of entries in strictly increasing key order, so two
maps with the same entries are equal and the order of a listing never depends on the order in
which the entries were written. Writing a key again replaces its value.
-/

set_option autoImplicit false

namespace Criteria

def KeySorted {α : Type} (entries : List (String × α)) : Prop :=
  entries.Pairwise fun a b => a.1 < b.1

structure Keyed (α : Type) where
  toList : List (String × α)
  sorted : KeySorted toList

namespace Keyed

variable {α : Type}

def insertEntry (key : String) (value : α) : List (String × α) → List (String × α)
  | [] => [(key, value)]
  | (k, v) :: rest =>
    if key < k then (key, value) :: (k, v) :: rest
    else if key = k then (key, value) :: rest
    else (k, v) :: insertEntry key value rest

def lookup (key : String) : List (String × α) → Option α
  | [] => none
  | (k, v) :: rest => if k = key then some v else lookup key rest

theorem mem_insertEntry {key : String} {value : α} {entries : List (String × α)}
    {e : String × α} (h : e ∈ insertEntry key value entries) : e = (key, value) ∨ e ∈ entries := by
  induction entries with
  | nil => simpa [insertEntry] using h
  | cons first rest ih =>
    simp only [insertEntry] at h
    grind

theorem keySorted_insertEntry (key : String) (value : α) {entries : List (String × α)}
    (h : KeySorted entries) : KeySorted (insertEntry key value entries) := by
  unfold KeySorted at *
  induction entries with
  | nil => simp [insertEntry]
  | cons first rest ih =>
    obtain ⟨k, v⟩ := first
    rw [List.pairwise_cons] at h
    simp only [insertEntry]
    split
    · rename_i hlt
      refine List.pairwise_cons.2 ⟨?_, List.pairwise_cons.2 h⟩
      intro e he
      rcases List.mem_cons.1 he with rfl | he
      · exact hlt
      · exact String.lt_trans hlt (h.1 e he)
    · split
      · rename_i heq
        exact List.pairwise_cons.2 ⟨fun e he => heq ▸ h.1 e he, h.2⟩
      · rename_i hlt hne
        refine List.pairwise_cons.2 ⟨fun e he => ?_, ih h.2⟩
        rcases mem_insertEntry he with rfl | he
        · exact String.not_le.1 fun hle => hne (String.le_antisymm hle (String.not_lt.1 hlt))
        · exact h.1 e he

theorem lookup_insertEntry (key other : String) (value : α) {entries : List (String × α)}
    (h : KeySorted entries) :
    lookup other (insertEntry key value entries) =
      if key = other then some value else lookup other entries := by
  induction entries with
  | nil => simp [insertEntry, lookup]
  | cons first rest ih =>
    obtain ⟨k, v⟩ := first
    have hrest := ih (List.pairwise_cons.1 h).2
    grind [insertEntry, lookup]

def empty : Keyed α := ⟨[], List.Pairwise.nil⟩

instance : EmptyCollection (Keyed α) := ⟨empty⟩

instance : Inhabited (Keyed α) := ⟨empty⟩

def get? (m : Keyed α) (key : String) : Option α := lookup key m.toList

def insert (m : Keyed α) (key : String) (value : α) : Keyed α :=
  ⟨insertEntry key value m.toList, keySorted_insertEntry key value m.sorted⟩

def alter (m : Keyed α) (key : String) (f : Option α → α) : Keyed α :=
  m.insert key (f (m.get? key))

/-- Writes the entries one after the other, so the last value of a repeated key stays. -/
def ofList (entries : List (String × α)) : Keyed α :=
  entries.foldl (fun m e => m.insert e.1 e.2) empty

def size (m : Keyed α) : Nat := m.toList.length

def isEmpty (m : Keyed α) : Bool := m.toList.isEmpty

@[ext]
theorem ext {m n : Keyed α} (h : m.toList = n.toList) : m = n := by
  cases m
  cases n
  simp_all

@[simp]
theorem get?_empty (key : String) : (empty : Keyed α).get? key = none := rfl

@[simp]
theorem get?_insert (m : Keyed α) (key other : String) (value : α) :
    (m.insert key value).get? other = if key = other then some value else m.get? other :=
  lookup_insertEntry key other value m.sorted

end Keyed

end Criteria
