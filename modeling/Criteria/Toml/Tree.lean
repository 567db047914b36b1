import Criteria.Toml.Token

set_option autoImplicit false

namespace Criteria.Toml

inductive Tree where
  | leaf (token : Token)
  | square (inner : List Tree)
  | curly (inner : List Tree)

/-- How deep brackets nest, and how many parts a key has, at most. -/
def depthLimit : Nat := 80

abbrev Opened := List (Bool × List Tree)

def open? (curly : Bool) (done : List Tree) (opened : Opened) : Option Opened :=
  if opened.length < depthLimit then some ((curly, done) :: opened) else none

def nest (done : List Tree) (opened : Opened) : List Token → Option (List Tree)
  | [] => if opened.isEmpty then some done.reverse else none
  | token :: rest =>
    match token, opened with
    | .openSquare, _ => (open? false done opened).bind fun opened => nest [] opened rest
    | .openCurly, _ => (open? true done opened).bind fun opened => nest [] opened rest
    | .closeSquare, (false, before) :: outer => nest (.square done.reverse :: before) outer rest
    | .closeCurly, (true, before) :: outer => nest (.curly done.reverse :: before) outer rest
    | .closeSquare, _ => none
    | .closeCurly, _ => none
    | other, _ => nest (.leaf other :: done) opened rest

def trim {α : Type} (p : α → Bool) (items : List α) : List α :=
  ((items.dropWhile p).reverse.dropWhile p).reverse

def pieces {α : Type} (separates : α → Bool) : List α → List (List α)
  | [] => [[]]
  | item :: rest =>
    match pieces separates rest with
    | [] => [[item]]
    | first :: others =>
      if separates item then [] :: first :: others else (item :: first) :: others

end Criteria.Toml
