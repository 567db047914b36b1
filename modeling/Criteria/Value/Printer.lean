import Criteria.Json.Printer
import Criteria.Value.Json

set_option autoImplicit false

namespace Criteria.Value

def doubleQuotes (s : List Char) : List Char :=
  s.flatMap fun c => if c = '\'' then ['\'', '\''] else [c]

/-- The text of a double: shortest digits without an exponent, or the name of what is no number. -/
def floatText (x : Float) : String :=
  if x.isNaN then "NaN"
  else if x.isInf then (if x < 0 then "-inf" else "inf")
  else Decimal.literal.writeBits x.toBits.toNat

mutual

def chars : Value → List Char
  | .null => "NULL".toList
  | .present inner => chars inner
  | .bool b => (if b then "true" else "false").toList
  | .int n => (toString n.toInt).toList
  | .uint n => (toString n.toNat).toList
  | .float x => (floatText x).toList
  | .text s => '\'' :: doubleQuotes s.toList ++ ['\'']
  | .list items => '(' :: [',', ' '].intercalate (itemChars items) ++ [')']
  | .map entries => '\'' :: (toJson (.map entries)).chars ++ ['\'']
  | .record type fields => '\'' :: (toJson (.record type fields)).chars ++ ['\'']
  | .document outcome => '\'' :: (toJson (.document outcome)).chars ++ ['\'']

def itemChars : List Value → List (List Char)
  | [] => []
  | item :: items => chars item :: itemChars items

end

def literal (v : Value) : String := String.ofList v.chars

end Criteria.Value
