import Criteria.Error
import Criteria.Operator.Query
import Criteria.Operator.Update
import Criteria.Schema.Basic

set_option autoImplicit false

namespace Criteria

inductive Target where
  | column (name : String)
  | group (type : TypeId)
deriving DecidableEq

inductive Role where
  | entry (target : Target)
  | embeds (type : TypeId)
deriving DecidableEq

namespace Declaration

/-- The declared column; an empty one and `-` stand for none. -/
def column? (d : Declaration) : Option String :=
  d.annotations.column.filter fun c => c ≠ "" ∧ c ≠ "-"

def queryToken (d : Declaration) : String := d.annotations.query.getD ""

def updateToken (d : Declaration) : String := d.annotations.update.getD ""

def isDeclared (d : Declaration) : Bool :=
  d.embedded || d.column?.isSome || d.queryToken ≠ "" || d.updateToken ≠ ""

def isOr (d : Declaration) : Bool := d.queryToken = "or"

def query? (d : Declaration) : Option QueryOp :=
  if d.queryToken = "" then none else QueryOp.ofToken? d.queryToken

def update? (d : Declaration) : Option UpdateOp :=
  if d.updateToken = "" then none else UpdateOp.ofToken? d.updateToken

/-- The operators restrict the shapes they are declared on: membership needs a list, an explicit
equality must not be on a list, and a pattern needs text or a value of any kind. -/
def shapeFault? (d : Declaration) : Option Fault :=
  let shape := d.shape.required
  match d.query? with
  | some op =>
    if op.isMembership && !shape.isList then some (.membershipNotList op.token shape.kind)
    else if op = .eq ∧ shape.isList then some .equalityOnList
    else if op = .like ∧ shape ≠ .text ∧ shape ≠ .any then some (.likeNotText shape.kind)
    else none
  | none => none

/-- The rules in the order in which they are tried. -/
def rules : List (Declaration → Option Fault) :=
  [ fun d => if d.embedded && d.column?.isSome then some .embeddedWithColumn else none,
    fun d => if d.isOr && d.column?.isSome then some .orWithColumn else none,
    fun d =>
      if d.isOr && d.shape.alternatives?.isNone then some (.orNotStruct d.shape.required.kind)
      else none,
    fun d =>
      if !d.embedded && !d.isOr && d.column?.isNone then some .missingColumn else none,
    shapeFault?,
    fun d =>
      if d.queryToken ≠ "" ∧ d.query? = none then some (.unknownQuery d.queryToken) else none,
    fun d =>
      if d.updateToken ≠ "" ∧ d.update? = none then some (.unknownUpdate d.updateToken) else none,
    fun d =>
      if d.embedded && d.shape.embedded?.isNone then
        some (.embeddedNotStruct d.shape.required.kind)
      else none ]

def fault? (d : Declaration) : Option Fault := rules.findSome? fun rule => rule d

def role? (d : Declaration) : Option Role :=
  if d.embedded then d.shape.embedded?.map .embeds
  else if d.isOr then d.shape.alternatives?.map fun type => .entry (.group type)
  else d.column?.map fun column => .entry (.column column)

/-- A declared field without a fault has a role. -/
theorem role?_isSome_of_fault?_eq_none {d : Declaration} (h : d.fault? = none) :
    d.role?.isSome = true := by
  simp only [fault?, rules, List.findSome?_eq_none_iff, List.mem_cons, List.not_mem_nil, or_false,
    forall_eq_or_imp, forall_eq] at h
  obtain ⟨-, -, hor, hcolumn, -, -, -, hembedded⟩ := h
  unfold role?
  split
  · simp_all [Option.isSome_iff_ne_none]
  · split
    · simp_all [Option.isSome_iff_ne_none]
    · simp_all [Option.isSome_iff_ne_none]

end Declaration

end Criteria
