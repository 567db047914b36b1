import Criteria.Assignment.Basic
import Criteria.Toml.Document

/-!
Configuration of a session. Everything has a default; a TOML text names what it changes and must not
name anything else. Settings that belong together may also be given as an array, in order, and a
name of a dialect also as the key of an empty table or array.
-/

set_option autoImplicit false

namespace Criteria

structure Config where
  caching : Bool := true
  dialect : Dialect := .mysql
deriving DecidableEq

namespace Config

def knows (keys : List String) (entries : List (String × Toml.Value)) : Bool :=
  entries.all fun e => e.1 ∈ keys

def cachingOf? : Toml.Value → Option Bool
  | .scalar (.boolean b) => some b
  | _ => none

def dialectOf? : Toml.Value → Option Dialect
  | .string name => Dialect.ofName? name
  | .table [(name, .table [])] => Dialect.ofName? name
  | .table [(name, .array [])] => Dialect.ofName? name
  | _ => none

def settingOf? {α : Type} (key : String) (read? : Toml.Value → Option α) (default : α)
    (entries : List (String × Toml.Value)) : Option α :=
  match Keyed.lookup key entries with
  | some v => read? v
  | none => some default

/-- A section that has one setting, given by its name or as the first item of an array. -/
def sectionOf? {α : Type} (key : String) (read? : Toml.Value → Option α) (default : α) :
    Toml.Value → Option α
  | .table entries => if knows [key] entries then settingOf? key read? default entries else none
  | .array [] => some default
  | .array (v :: _) => read? v
  | _ => none

def ofToml? (text : String) : Option Config := do
  let entries ← Toml.document? text
  if !knows ["cache", "update"] entries then none
  return {
    caching := ← settingOf? "cache" (sectionOf? "enabled" cachingOf? true) true entries
    dialect := ← settingOf? "update" (sectionOf? "dialect" dialectOf? .mysql) .mysql entries }

end Config

end Criteria
