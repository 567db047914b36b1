import Criteria.Decimal.Layout
import Criteria.Json.Basic

set_option autoImplicit false

namespace Criteria.Json

def escapeChar (c : Char) : List Char :=
  if c = '"' then ['\\', '"']
  else if c = '\\' then ['\\', '\\']
  else if c = '\n' then ['\\', 'n']
  else if c = '\r' then ['\\', 'r']
  else if c = '\t' then ['\\', 't']
  else if c = '\x08' then ['\\', 'b']
  else if c = '\x0c' then ['\\', 'f']
  else if c.toNat < 0x20 then
    ['\\', 'u', '0', '0', Nat.digitChar (c.toNat / 16), Nat.digitChar (c.toNat % 16)]
  else [c]

def quoteChars (s : List Char) : List Char :=
  '"' :: s.flatMap escapeChar ++ ['"']

mutual

def chars : Json → List Char
  | .null => "null".toList
  | .bool b => (if b then "true" else "false").toList
  | .whole n => (toString n.val).toList
  | .float x => (Decimal.json.writeBits x.val.toBits.toNat).toList
  | .string s => quoteChars s.toList
  | .array items => '[' :: [','].intercalate (itemChars items) ++ [']']
  | .object members => '\x7b' :: [','].intercalate (memberChars members) ++ ['\x7d']

def itemChars : List Json → List (List Char)
  | [] => []
  | item :: items => chars item :: itemChars items

def memberChars : List (String × Json) → List (List Char)
  | [] => []
  | (key, value) :: members =>
    (quoteChars key.toList ++ ':' :: chars value) :: memberChars members

end

def text (j : Json) : String := String.ofList j.chars

end Criteria.Json
