import Criteria.Keyed
import Criteria.Toml.Scalar
import Criteria.Toml.Tree

/-!
TOML documents. A document is a table; its lines are headers, which open a table or a new element of
an array of tables, and assignments to keys below the table that is open. What was defined in one
way must not be defined again or extended in another way.
-/

set_option autoImplicit false

namespace Criteria.Toml

inductive Value where
  | string (s : String)
  | scalar (s : Scalar)
  | array (items : List Value)
  | table (entries : List (String × Value))

/-- A part of a document under construction. Values, arrays and inline tables are complete. A table
is `implicit` while only parts of it were named, and `dotted` if these were named by the key of an
assignment. An array of tables grows by headers. -/
inductive Node where
  | value (v : Value)
  | table (implicit dotted : Bool) (entries : List (String × Node))
  | tables (elements : List (List (String × Node)))

abbrev Entries := List (String × Node)

def setEntry (key : String) (node : Node) : Entries → Entries
  | [] => [(key, node)]
  | (k, old) :: rest => if k = key then (k, node) :: rest else (k, old) :: setEntry key node rest

/-- Changes the table that a path leads to, given whether it is dotted. Tables missing on the way
are made; through an array of tables the way goes to its last element. The key of an assignment may
not lead through a table that has a header, and it makes the tables that it leads through dotted. -/
def changeAt (byKey : Bool) (change : Bool → Entries → Option Entries) :
    List String → Bool → Entries → Option Entries
  | [], dotted, entries => change dotted entries
  | key :: path, _, entries =>
    match Keyed.lookup key entries with
    | none =>
      (changeAt byKey change path byKey []).map fun inner =>
        setEntry key (.table true byKey inner) entries
    | some (.value _) => none
    | some (.table implicit dotted inner) =>
      if byKey && !implicit then none
      else
        let dotted := dotted || byKey
        (changeAt byKey change path dotted inner).map fun inner =>
          setEntry key (.table implicit dotted inner) entries
    | some (.tables elements) =>
      (changeAt byKey change path false (elements.getLast?.getD [])).map fun last =>
        setEntry key (.tables (elements.dropLast ++ [last])) entries

/-- Assigns to a key that must be new. What a dotted key leads into must be a dotted table, so it is
never an element of an array of tables. -/
def assign (path : List String) (key : String) (v : Value) (entries : Entries) : Option Entries :=
  changeAt true (fun dotted inner =>
    if dotted = path.isEmpty then none
    else if (Keyed.lookup key inner).isSome then none
    else some (setEntry key (.value v) inner)) path false entries

def openTable (path : List String) (key : String) (entries : Entries) : Option Entries :=
  changeAt false (fun _ inner =>
    match Keyed.lookup key inner with
    | none => some (setEntry key (.table false false []) inner)
    | some (.table true false old) => some (setEntry key (.table false false old) inner)
    | some _ => none) path false entries

def openElement (path : List String) (key : String) (entries : Entries) : Option Entries :=
  changeAt false (fun _ inner =>
    match Keyed.lookup key inner with
    | none => some (setEntry key (.tables [[]]) inner)
    | some (.tables elements) => some (setEntry key (.tables (elements ++ [[]])) inner)
    | some _ => none) path false entries

mutual

def Node.complete : Node → Value
  | .value v => v
  | .table _ _ entries => .table (completeEntries entries)
  | .tables elements => .array (completeElements elements)

def completeEntries : List (String × Node) → List (String × Value)
  | [] => []
  | (key, node) :: rest => (key, node.complete) :: completeEntries rest

def completeElements : List (List (String × Node)) → List Value
  | [] => []
  | entries :: rest => .table (completeEntries entries) :: completeElements rest

end

inductive Piece where
  | token (t : Token)
  | value (v : Value)

namespace Piece

def isToken (t : Token) : Piece → Bool
  | .token u => u = t
  | .value _ => false

def isBlank : Piece → Bool
  | .token (.blank _) => true
  | _ => false

def isSpace : Piece → Bool
  | .token (.blank _) => true
  | .token .newline => true
  | _ => false

end Piece

def isKeyChar (c : Char) : Bool := c.isAlphanum || c = '_' || c = '-'

def keyPart? : List Piece → Option String
  | [.token (.bare s)] => if s.toList.all isKeyChar then some s else none
  | [.token (.text s false)] => some s
  | _ => none

def key? (key : List Piece) : Option (List String × String) := do
  let parts ← (pieces (Piece.isToken .dot) key).mapM fun part => keyPart? (trim Piece.isBlank part)
  if depthLimit < parts.length then none
  return (parts.dropLast, ← parts.getLast?)

def scalarChars? : List Piece → Option (List Char)
  | [] => some []
  | .token (.bare s) :: rest => (scalarChars? rest).map (s.toList ++ ·)
  | .token (.blank s) :: rest => (scalarChars? rest).map (s.toList ++ ·)
  | .token .dot :: rest => (scalarChars? rest).map ('.' :: ·)
  | _ => none

def value? : List Piece → Option Value
  | [.value v] => some v
  | [.token (.text s _)] => some (.string s)
  | scalar => do return .scalar (← Scalar.ofChars? (← scalarChars? scalar))

/-- Performs an assignment, split at its first equals sign. Between brackets there may be newlines
around the sign; a line has none. -/
def assignIn (entries : Entries) (assignment : List Piece) : Option Entries := do
  let left := assignment.takeWhile fun piece => !piece.isToken .equals
  match assignment.drop left.length with
  | [] => none
  | _ :: right =>
    let (path, key) ← key? (trim Piece.isSpace left)
    assign path key (← value? (trim Piece.isSpace right)) entries

def items? (inner : List Piece) : Option (List (List Piece)) :=
  let found := (pieces (Piece.isToken .comma) inner).map (trim Piece.isSpace)
  let items :=
    match found.getLast? with
    | some [] => found.dropLast
    | _ => found
  if items.all fun item => !item.isEmpty then some items else none

mutual

def Tree.read? : Tree → Option Piece
  | .leaf token => some (.token token)
  | .square inner => do
    let items ← items? (← readAll? inner)
    return .value (.array (← items.mapM value?))
  | .curly inner => do
    let items ← items? (← readAll? inner)
    return .value (.table (completeEntries (← items.foldlM assignIn [])))

def readAll? : List Tree → Option (List Piece)
  | [] => some []
  | tree :: trees => do return (← tree.read?) :: (← readAll? trees)

end

structure Draft where
  root : Entries
  header : List String

def Draft.line? (d : Draft) (trees : List Tree) : Option Draft :=
  match trim (fun tree => tree matches .leaf (.blank _)) trees with
  | [] => some d
  | [.square [.square inner]] => do
    let (path, key) ← key? (← readAll? inner)
    return ⟨← openElement path key d.root, path ++ [key]⟩
  | [.square inner] => do
    let (path, key) ← key? (← readAll? inner)
    return ⟨← openTable path key d.root, path ++ [key]⟩
  | trees => do
    let assignment ← readAll? trees
    return { d with
      root := ← changeAt false (fun _ inner => assignIn inner assignment) d.header false d.root }

def document? (text : String) : Option (List (String × Value)) := do
  let trees ← nest [] [] (← tokens? text)
  let lines := pieces (fun tree => tree matches .leaf .newline) trees
  let draft ← lines.foldlM Draft.line? ⟨[], []⟩
  return completeEntries draft.root

end Criteria.Toml
