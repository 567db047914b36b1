import Criteria.Decimal.Shortest

set_option autoImplicit false

namespace Criteria.Decimal

structure Layout where
  tie : Tie
  /-- The decimal exponents written without an exponent part; `none` stands for all of them. -/
  plain : Option (Int × Int)
  wholePoint : Bool

def plainText (d : Digits) (wholePoint : Bool) : String :=
  let digits := Nat.toDigits 10 d.digits
  let whole := (digits.length : Int) + d.exponent
  if 0 ≤ d.exponent then
    String.ofList (digits ++ List.replicate d.exponent.toNat '0') ++
      (if wholePoint then ".0" else "")
  else if 0 < whole then
    String.ofList (digits.take whole.toNat) ++ "." ++ String.ofList (digits.drop whole.toNat)
  else
    "0." ++ String.ofList (List.replicate (-whole).toNat '0' ++ digits)

def scientificText (d : Digits) : String :=
  let digits := Nat.toDigits 10 d.digits
  let exponent := (digits.length : Int) + d.exponent - 1
  String.ofList (digits.take 1) ++
    (if digits.length ≤ 1 then "" else "." ++ String.ofList (digits.drop 1)) ++
    "e" ++ (if 0 ≤ exponent then "+" else "-") ++ toString exponent.natAbs

def Layout.write (l : Layout) (d : Digits) : String :=
  let exponent := ((Nat.toDigits 10 d.digits).length : Int) + d.exponent - 1
  match l.plain with
  | none => plainText d l.wholePoint
  | some (first, last) =>
    if first ≤ exponent ∧ exponent ≤ last then plainText d l.wholePoint else scientificText d

def Layout.writeBits (l : Layout) (bits : Nat) : String :=
  let magnitude := bits % 0x8000000000000000
  (if bits / 0x8000000000000000 % 2 = 0 then "" else "-") ++
    if magnitude = 0 then (if l.wholePoint then "0.0" else "0")
    else l.write ((Binary.ofBits magnitude).shortest l.tie)

/-- Numbers in messages and rendered literals: never an exponent, no point on whole numbers, and a
tie goes up. -/
def literal : Layout := ⟨.up, none, false⟩

/-- Numbers in JSON text: plain from `0.00001` up to sixteen whole digits, always with a point when
plain, and a tie goes to the even digit. -/
def json : Layout := ⟨.even, some (-5, 15), true⟩

example : literal.writeBits 0x8000000000000000 = "-0" := by decide +kernel

example : literal.writeBits 0x3e7ad7f29abcaf48 = "0.0000001" := by decide +kernel

example : json.writeBits 0x3ff0000000000000 = "1.0" := by decide +kernel

example : json.writeBits 0x430c6bf526340000 = "1000000000000000.0" := by decide +kernel

example : json.writeBits 0x436aa535d3d0c000 = "6e+16" := by decide +kernel

example : json.writeBits 1 = "5e-324" := by decide +kernel

/-- Halfway between two shortest decimals the layouts part. -/
example : literal.writeBits 0x4319766c1fd6743d = "1791770295115023.3" ∧
    json.writeBits 0x4319766c1fd6743d = "1791770295115023.2" := by decide +kernel

end Criteria.Decimal
