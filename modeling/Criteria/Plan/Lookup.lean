import Criteria.Plan.Basic

/-!
Computations that ask for plans. A builder does not know where plans come from: it asks for the plan
of a type and goes on with the answer. Who runs the computation decides how a question is answered,
by planning afresh or from a cache.
-/

set_option autoImplicit false

namespace Criteria

/-- A computation that ends with a value or a failure, or asks for the plan of a type. -/
inductive Lookup (α : Type) where
  | done (a : α)
  | fail (e : Error)
  | ask (type : TypeId) (next : Plan → Lookup α)

namespace Lookup

variable {α β : Type}

def bind : Lookup α → (α → Lookup β) → Lookup β
  | .done a, f => f a
  | .fail e, _ => .fail e
  | .ask type next, f => .ask type fun plan => (next plan).bind f

instance : Monad Lookup where
  pure := .done
  bind := bind

def ofExcept : Except Error α → Lookup α
  | .ok a => .done a
  | .error e => .fail e

theorem bind_done (x : Lookup α) : x.bind .done = x := by
  induction x with
  | done a => rfl
  | fail e => rfl
  | ask type next ih => simp only [bind, ih]

theorem bind_assoc {γ : Type} (x : Lookup α) (f : α → Lookup β) (g : β → Lookup γ) :
    (x.bind f).bind g = x.bind fun a => (f a).bind g := by
  induction x with
  | done a => rfl
  | fail e => rfl
  | ask type next ih => simp only [bind, ih]

instance : LawfulMonad Lookup :=
  LawfulMonad.mk' Lookup bind_done (fun _ _ => rfl) bind_assoc

def run (answer : TypeId → Except Error Plan) : Lookup α → Except Error α
  | .done a => .ok a
  | .fail e => .error e
  | .ask type next =>
    match answer type with
    | .ok plan => (next plan).run answer
    | .error e => .error e

@[simp]
theorem run_bind (answer : TypeId → Except Error Plan) (x : Lookup α) (f : α → Lookup β) :
    (x.bind f).run answer = (x.run answer).bind fun a => (f a).run answer := by
  induction x with
  | done a => rfl
  | fail e => rfl
  | ask type next ih =>
    simp only [bind, run]
    cases answer type with
    | ok plan => exact ih plan
    | error e => rfl

end Lookup

end Criteria
