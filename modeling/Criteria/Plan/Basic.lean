import Criteria.Schema.Rules

set_option autoImplicit false

namespace Criteria

structure Plan.Entry where
  name : String
  /-- The field names from the described struct down to this field, through embedded structs. -/
  path : List String
  target : Target
  query : Option QueryOp
  update : Option UpdateOp
  written : List (String × String)
deriving DecidableEq

structure Plan where
  type : TypeId
  entries : List Plan.Entry
deriving DecidableEq

namespace Plan

namespace Entry

def leaf (name column : String) : Entry :=
  { name := name, path := [name], target := .column column, query := none, update := none,
    written := [] }

def column? (e : Entry) : Option String :=
  match e.target with
  | .column name => some name
  | .group _ => none

def group? (e : Entry) : Option TypeId :=
  match e.target with
  | .column _ => none
  | .group type => some type

def queryOp (e : Entry) : QueryOp := e.query.getD .eq

end Entry

/-- A name declared again replaces the entry before it and moves to the end. -/
def redeclare (e : Entry) (entries : List Entry) : List Entry :=
  entries.filter (fun old => old.name ≠ e.name) ++ [e]

/-- An embedded entry only takes a name that is still free. -/
def addMissing (entries : List Entry) (e : Entry) : List Entry :=
  if entries.any fun old => old.name = e.name then entries else entries ++ [e]

def fill (embedded entries : List Entry) : List Entry := embedded.foldl addMissing entries

def put (e : Entry) : List Entry → List Entry
  | [] => [e]
  | old :: entries => if old.name = e.name then e :: entries else old :: put e entries

/-- A plan of given entries; of entries with one name the last one stays, in the first place. -/
def ofEntries (type : TypeId) (entries : List Entry) : Plan :=
  ⟨type, entries.foldl (fun done e => put e done) []⟩

def find? (p : Plan) (name : String) : Option Entry := p.entries.find? fun e => e.name = name

def order (p : Plan) : List String := p.entries.map (·.name)

def size (p : Plan) : Nat := p.entries.length

def isEmpty (p : Plan) : Bool := p.entries.isEmpty

end Plan

end Criteria
