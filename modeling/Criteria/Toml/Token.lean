/-!
Tokens of TOML text. A machine reads one character at a time: its state says what the characters
read so far have begun, and a step hands out the tokens that are complete. Comments leave no token.
A character that cannot stand where it does ends the reading.
-/

set_option autoImplicit false

namespace Criteria.Toml

inductive Quote where
  | basic
  | literal
deriving DecidableEq

def Quote.char : Quote → Char
  | .basic => '"'
  | .literal => '\''

inductive Token where
  | newline
  | blank (s : String)
  | comma
  | dot
  | equals
  | openSquare
  | closeSquare
  | openCurly
  | closeCurly
  | text (s : String) (multiline : Bool)
  | bare (s : String)
deriving DecidableEq

/-- What the characters read so far have begun. Characters of a token are kept last first. -/
inductive State where
  | idle
  | blank (s : List Char)
  | bare (s : List Char)
  | comment
  | carriage
  | opening (q : Quote) (second : Bool)
  /-- After three quotes, and perhaps a carriage return: a newline here is not part of the text. -/
  | fresh (q : Quote) (carriage : Bool)
  | line (q : Quote) (s : List Char)
  /-- Several lines of text, followed by some quotes that may close it. -/
  | lines (q : Quote) (s : List Char) (quotes : Nat)
  | linesCarriage (q : Quote) (s : List Char)
  | escape (multiline : Bool) (s : List Char)
  | code (multiline : Bool) (s : List Char) (left value : Nat)
  /-- After a backslash at the end of a line: blanks and newlines are dropped. -/
  | joined (s : List Char) (ended carriage : Bool)

/-- The characters that end a bare run. Quotes are not among them: within a run they are characters
like all others. -/
def endsBare (c : Char) : Bool :=
  c = ' ' || c = '\t' || c = '\n' || c = '\r' || c = '#' || c = ',' || c = '.' || c = '=' ||
    c = '[' || c = ']' || c = '\x7b' || c = '\x7d'

def isPrintable (c : Char) : Bool :=
  c = '\t' || (' ' ≤ c && c ≠ '\x7f')

def hexDigit? (c : Char) : Option Nat :=
  if '0' ≤ c ∧ c ≤ '9' then some (c.toNat - '0'.toNat)
  else if 'a' ≤ c ∧ c ≤ 'f' then some (c.toNat - 'a'.toNat + 10)
  else if 'A' ≤ c ∧ c ≤ 'F' then some (c.toNat - 'A'.toNat + 10)
  else none

def simpleEscape? : Char → Option Char
  | 'b' => some '\x08'
  | 't' => some '\t'
  | 'n' => some '\n'
  | 'f' => some '\x0c'
  | 'r' => some '\r'
  | 'e' => some '\x1b'
  | '"' => some '"'
  | '\\' => some '\\'
  | _ => none

def codeLength? : Char → Option Nat
  | 'x' => some 2
  | 'u' => some 4
  | 'U' => some 8
  | _ => none

namespace State

def between : Char → State × List Token
  | ' ' => (.blank [' '], [])
  | '\t' => (.blank ['\t'], [])
  | '\n' => (.idle, [.newline])
  | '\r' => (.carriage, [])
  | '#' => (.comment, [])
  | '"' => (.opening .basic false, [])
  | '\'' => (.opening .literal false, [])
  | ',' => (.idle, [.comma])
  | '.' => (.idle, [.dot])
  | '=' => (.idle, [.equals])
  | '[' => (.idle, [.openSquare])
  | ']' => (.idle, [.closeSquare])
  | '\x7b' => (.idle, [.openCurly])
  | '\x7d' => (.idle, [.closeCurly])
  | c => (.bare [c], [])

def after (token : Token) (c : Char) : State × List Token :=
  let (state, tokens) := between c
  (state, token :: tokens)

def closed (s : List Char) (multiline : Bool) : Token := .text (String.ofList s.reverse) multiline

def inText (q : Quote) (multiline : Bool) (s : List Char) : State :=
  if multiline then .lines q s 0 else .line q s

def inLines (q : Quote) (s : List Char) (c : Char) : Option (State × List Token) :=
  if c = '\n' then some (.lines q (c :: s) 0, [])
  else if c = '\r' then some (.linesCarriage q s, [])
  else if c = '\\' ∧ q = .basic then some (.escape true s, [])
  else if c = q.char then some (.lines q s 1, [])
  else if isPrintable c then some (.lines q (c :: s) 0, [])
  else none

def inLine (q : Quote) (s : List Char) (c : Char) : Option (State × List Token) :=
  if c = q.char then some (.idle, [closed s false])
  else if c = '\\' ∧ q = .basic then some (.escape false s, [])
  else if isPrintable c then some (.line q (c :: s), [])
  else none

def step : State → Char → Option (State × List Token)
  | .idle, c => some (between c)
  | .blank s, c =>
    if c = ' ' ∨ c = '\t' then some (.blank (c :: s), [])
    else some (after (.blank (String.ofList s.reverse)) c)
  | .bare s, c =>
    if endsBare c then some (after (.bare (String.ofList s.reverse)) c)
    else some (.bare (c :: s), [])
  | .comment, c =>
    if c = '\n' then some (.idle, [.newline])
    else if c = '\r' then some (.carriage, [])
    else if isPrintable c then some (.comment, [])
    else none
  | .carriage, c => if c = '\n' then some (.idle, [.newline]) else none
  | .opening q false, c => if c = q.char then some (.opening q true, []) else inLine q [] c
  | .opening q true, c =>
    if c = q.char then some (.fresh q false, []) else some (after (closed [] false) c)
  | .fresh q false, c =>
    if c = '\n' then some (.lines q [] 0, [])
    else if c = '\r' then some (.fresh q true, [])
    else inLines q [] c
  | .fresh q true, c => if c = '\n' then some (.lines q [] 0, []) else none
  | .line q s, c => inLine q s c
  | .lines q s quotes, c =>
    let s' := List.replicate quotes q.char ++ s
    if c = q.char then
      if quotes = 4 then some (.idle, [closed (List.replicate 2 q.char ++ s) true])
      else some (.lines q s (quotes + 1), [])
    else if 3 ≤ quotes then some (after (closed (List.replicate (quotes - 3) q.char ++ s) true) c)
    else inLines q s' c
  | .linesCarriage q s, c => if c = '\n' then some (.lines q ('\n' :: s) 0, []) else none
  | .escape multiline s, c =>
    match simpleEscape? c, codeLength? c with
    | some e, _ => some (inText .basic multiline (e :: s), [])
    | none, some length => some (.code multiline s length 0, [])
    | none, none =>
      if multiline then
        if c = ' ' ∨ c = '\t' then some (.joined s false false, [])
        else if c = '\n' then some (.joined s true false, [])
        else if c = '\r' then some (.joined s false true, [])
        else none
      else none
  | .code multiline s left value, c =>
    match hexDigit? c with
    | none => none
    | some digit =>
      let value := 16 * value + digit
      if 1 < left then some (.code multiline s (left - 1) value, [])
      else if value.isValidChar then
        some (inText .basic multiline (Char.ofNat value :: s), [])
      else none
  | .joined s ended false, c =>
    if c = ' ' ∨ c = '\t' then some (.joined s ended false, [])
    else if c = '\n' then some (.joined s true false, [])
    else if c = '\r' then some (.joined s ended true, [])
    else if ended then inLines .basic s c
    else none
  | .joined s _ true, c => if c = '\n' then some (.joined s true false, []) else none

def finish : State → Option (List Token)
  | .idle | .comment => some []
  | .blank s => some [.blank (String.ofList s.reverse)]
  | .bare s => some [.bare (String.ofList s.reverse)]
  | .opening _ true => some [closed [] false]
  | .lines q s quotes =>
    if 3 ≤ quotes then some [closed (List.replicate (quotes - 3) q.char ++ s) true] else none
  | _ => none

def tokens (state : State) : List Char → Option (List Token)
  | [] => state.finish
  | c :: rest =>
    match state.step c with
    | none => none
    | some (next, found) => (tokens next rest).map (found ++ ·)

end State

def tokens? (text : String) : Option (List Token) :=
  match text.toList with
  | '\ufeff' :: rest => State.idle.tokens rest
  | chars => State.idle.tokens chars

end Criteria.Toml
