
set_option autoImplicit false

namespace Criteria.Toml

def isGrouped (digit : Char → Bool) : List Char → Bool
  | [] => false
  | [c] => digit c
  | c :: '_' :: rest => digit c && isGrouped digit rest
  | c :: rest => digit c && isGrouped digit rest

/-- Whether a digit stands on both sides of every underscore; `before` tells whether the characters
follow on a digit. All other characters may be anything. -/
def isJoined (digit : Char → Bool) (before : Bool) : List Char → Bool
  | [] => true
  | ['_'] => false
  | '_' :: next :: rest => before && digit next && isJoined digit true rest
  | c :: rest => isJoined digit (digit c) rest

def unsigned : List Char → List Char
  | '+' :: rest => rest
  | '-' :: rest => rest
  | rest => rest

def isHexDigit (c : Char) : Bool :=
  c.isDigit || ('a' ≤ c && c ≤ 'f') || ('A' ≤ c && c ≤ 'F')

/-- A decimal number without a needless zero in front. Since no number is ever computed, what follows
the first underscore is not looked at, except that its underscores stand between hexadecimal digits
and that it is no part of a fraction or an exponent. -/
def isDecimal (chars : List Char) : Bool :=
  let body := unsigned chars
  let rest := body.dropWhile Char.isDigit
  body = ['0'] ||
    (body ≠ [] && body.head? ≠ some '0' &&
      (rest = [] ||
        (rest.head? = some '_' && isJoined isHexDigit false body &&
          rest.all fun c => c ≠ ' ' ∧ c ≠ '.' ∧ c ≠ 'e' ∧ c ≠ 'E')))

def isRadixed (digit : Char → Bool) (chars : List Char) : Bool :=
  chars = [] || isGrouped digit chars

def isInteger : List Char → Bool
  | '0' :: 'x' :: rest => isRadixed isHexDigit rest
  | '0' :: 'o' :: rest => isRadixed (fun c => '0' ≤ c && c ≤ '7') rest
  | '0' :: 'b' :: rest => isRadixed (fun c => c = '0' || c = '1') rest
  | chars => isDecimal chars

/-- Underscores and at least one digit; several digits begin with a zero only if `zeros` allows
it. -/
def isCount (zeros : Bool) (chars : List Char) : Bool :=
  chars.all (fun c => c.isDigit || c = '_') &&
    match chars.filter Char.isDigit with
    | [] => false
    | [_] => true
    | _ => zeros || chars.head? ≠ some '0'

def isFloat (chars : List Char) : Bool :=
  let body := unsigned chars
  let mantissa := body.takeWhile fun c => c ≠ 'e' ∧ c ≠ 'E'
  let exponent := body.drop mantissa.length
  let whole := mantissa.takeWhile (· ≠ '.')
  let fraction := mantissa.drop whole.length
  body = "inf".toList || body = "nan".toList ||
    (isCount false whole && (fraction ≠ [] || exponent ≠ []) &&
      (fraction = [] || isCount true (fraction.drop 1)) &&
      (exponent = [] || isCount true (unsigned (exponent.drop 1))) &&
      isJoined Char.isDigit false body)

def number? (chars : List Char) (length : Nat) : Option Nat :=
  if chars.length = length && chars.all Char.isDigit then
    some (chars.foldl (fun n c => 10 * n + (c.toNat - '0'.toNat)) 0)
  else none

def daysIn (year month : Nat) : Nat :=
  if month = 2 then
    if year % 4 = 0 ∧ (year % 100 ≠ 0 ∨ year % 400 = 0) then 29 else 28
  else if month = 4 ∨ month = 6 ∨ month = 9 ∨ month = 11 then 30
  else 31

def isDate (chars : List Char) : Bool :=
  match number? (chars.take 4) 4, number? ((chars.drop 5).take 2) 2, number? (chars.drop 8) 2 with
  | some year, some month, some day =>
    chars[4]? = some '-' && chars[7]? = some '-' &&
      1 ≤ month && month ≤ 12 && 1 ≤ day && day ≤ daysIn year month
  | _, _, _ => false

def isHourMinute (chars : List Char) : Bool :=
  match number? (chars.take 2) 2, number? (chars.drop 3) 2 with
  | some hour, some minute => chars[2]? = some ':' && hour ≤ 23 && minute ≤ 59
  | _, _ => false

def isSeconds : List Char → Bool
  | [] => true
  | ':' :: rest =>
    (match number? (rest.take 2) 2 with
      | some second => second ≤ 60
      | none => false) &&
      (match rest.drop 2 with
        | [] => true
        | '.' :: fraction => fraction ≠ [] && fraction.all Char.isDigit
        | _ => false)
  | _ => false

def isTime (chars : List Char) : Bool :=
  isHourMinute (chars.take 5) && isSeconds (chars.drop 5)

def isOffsetTime (chars : List Char) : Bool :=
  let time := chars.takeWhile fun c => c ≠ 'Z' ∧ c ≠ 'z' ∧ c ≠ '+' ∧ c ≠ '-'
  isTime time &&
    match chars.drop time.length with
    | [] => true
    | ['Z'] => true
    | ['z'] => true
    | _ :: offset => isHourMinute offset

def isMoment (chars : List Char) : Bool :=
  isTime chars || isDate chars ||
    (isDate (chars.take 10) && isOffsetTime (chars.drop 11) &&
      (chars[10]? = some 'T' || chars[10]? = some 't' || chars[10]? = some ' '))

inductive Scalar where
  | boolean (b : Bool)
  | integer
  | float
  | moment
deriving DecidableEq

def Scalar.ofChars? (chars : List Char) : Option Scalar :=
  if chars = "true".toList then some (.boolean true)
  else if chars = "false".toList then some (.boolean false)
  else if isInteger chars then some .integer
  else if isFloat chars then some .float
  else if isMoment chars then some .moment
  else none

end Criteria.Toml
