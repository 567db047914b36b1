/-!
Shortest decimal digits of a binary floating-point number. A finite double stands for every real
that rounds to it; among the decimals in that interval the ones with the fewest digits are taken,
and of those the one nearest to the double. Everything is exact integer arithmetic on a mantissa
and a power of two, so the choice can be stated without any floating-point operation.
-/

set_option autoImplicit false

namespace Criteria.Decimal

structure Binary where
  mantissa : Nat
  exponent : Int

/-- A binary number together with the reals that round to it: `low / unit` and `high / unit` are
the ends of the interval, `mid / unit` is the number itself, and the ends belong to the interval
when `closed` holds. -/
structure Interval where
  low : Nat
  mid : Nat
  high : Nat
  unit : Nat
  closed : Bool

inductive Tie where
  | up
  | even

structure Digits where
  digits : Nat
  exponent : Int

def digitCount (n : Nat) : Nat := if n = 0 then 0 else (Nat.toDigits 10 n).length

def hiddenBit : Nat := 0x10000000000000

def Binary.ofBits (bits : Nat) : Binary :=
  let fraction : Nat := bits % hiddenBit
  let biased : Nat := bits / hiddenBit % 0x800
  if biased = 0 then ⟨fraction, -1074⟩ else ⟨fraction + hiddenBit, (biased : Int) - 1075⟩

/-- Neighbouring doubles are one mantissa step apart, except below a power of two, where the lower
neighbour is half a step away. The ends of the interval are the midpoints to the neighbours. -/
def Binary.interval (b : Binary) : Interval :=
  let below := if b.mantissa = hiddenBit ∧ -1074 < b.exponent then 1 else 2
  let scale := Nat.pow 2 (b.exponent - 2).toNat
  { low := (4 * b.mantissa - below) * scale
    mid := 4 * b.mantissa * scale
    high := (4 * b.mantissa + 2) * scale
    unit := Nat.pow 2 (2 - b.exponent).toNat
    closed := b.mantissa % 2 = 0 }

def Interval.onGrid (i : Interval) (power : Int) : Interval :=
  let up := Nat.pow 10 (-power).toNat
  { low := i.low * up
    mid := i.mid * up
    high := i.high * up
    unit := i.unit * Nat.pow 10 power.toNat
    closed := i.closed }

def Interval.holds (i : Interval) (d : Nat) : Bool :=
  if i.closed then i.low ≤ d * i.unit ∧ d * i.unit ≤ i.high
  else i.low < d * i.unit ∧ d * i.unit < i.high

/-- The whole number of the interval that is nearest to its middle, if one of the two neighbours of
the middle lies in the interval. -/
def Interval.nearest? (i : Interval) (tie : Tie) : Option Nat :=
  let d := i.mid / i.unit
  match i.holds d, i.holds (d + 1) with
  | false, false => none
  | true, false => some d
  | false, true => some (d + 1)
  | true, true =>
    let twice := 2 * (i.mid % i.unit)
    if twice < i.unit then some d
    else if i.unit < twice then some (d + 1)
    else match tie with
      | .up => some (d + 1)
      | .even => some (if d % 2 = 0 then d else d + 1)

theorem Interval.holds_of_nearest? {i : Interval} {tie : Tie} {d : Nat}
    (h : i.nearest? tie = some d) : i.holds d = true := by
  cases hlow : i.holds (i.mid / i.unit) <;> cases hhigh : i.holds (i.mid / i.unit + 1) <;>
    cases tie <;> simp only [nearest?, hlow, hhigh] at h <;> grind

def Interval.leading (i : Interval) : Int :=
  if i.unit ≤ i.mid then (digitCount (i.mid / i.unit) : Int) - 1
  else -(digitCount ((i.unit - 1) / i.mid) : Int)

def Interval.search (i : Interval) (tie : Tie) (leading : Int) : Nat → Nat → Digits
  | _, 0 => ⟨0, 0⟩
  | count, tries + 1 =>
    let power := leading - (count : Int) + 1
    match (i.onGrid power).nearest? tie with
    | some d => ⟨d, power⟩
    | none => i.search tie leading (count + 1) tries

def Digits.trim (d : Digits) : Digits :=
  if h : d.digits = 0 ∨ d.digits % 10 ≠ 0 then d
  else Digits.trim ⟨d.digits / 10, d.exponent + 1⟩
termination_by d.digits
decreasing_by omega

def Binary.shortest (b : Binary) (tie : Tie) : Digits :=
  (b.interval.search tie b.interval.leading 1 17).trim

end Criteria.Decimal
