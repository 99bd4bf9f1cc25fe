/-
LabelSelector.Requirement — one condition on the value of one key.

A requirement is a key, an operator and a set of values that fit together. `fault?` decides whether
they do, in a fixed order: the key, each value, the number of values, the bound of a comparison.
The verdict is part of the type, so a `Requirement` at hand is always a sound one, and `build` is
the way to make one. A `Draft` is a requirement as someone has written it down, its operator still
a text and its values still a list.
-/
import LabelSelector.Operator
import LabelSelector.ValueSet
import LabelSelector.Text.Identifier
import LabelSelector.Text.Integer

namespace LabelSelector

/-- What is wrong with the number or the form of an operator's values, if anything. -/
def Operator.fault? (operator : Operator) (values : ValueSet) : Option Fault :=
  match operator with
  | .isIn | .notIn => if values.isEmpty then some .noValues else none
  | .equals | .doubleEquals | .notEquals => if values.size ≠ 1 then some .notOneValue else none
  | .present | .absent => if values.isEmpty then none else some .unwantedValues
  | .greaterThan | .lessThan =>
    match values.toList with
    | [bound] => if (Text.int64? bound).isSome then none else some (.boundNotInteger bound)
    | _ => some .notOneBound

/-- What is wrong with a key, an operator and values taken together, if anything: the first of the
checks on the key, on the least value that cannot be spelled, and on the values as a whole. -/
def Requirement.fault? (key : String) (operator : Operator) (values : ValueSet) : Option Fault :=
  if key.isEmpty || !Text.isIdentifier key then
    some (.invalidIdentifier key)
  else
    match values.toList.find? fun value => !Text.isIdentifier value with
    | some value => some (.invalidIdentifier value)
    | none => operator.fault? values

/-- A condition on the value of one key. -/
structure Requirement where
  key : String
  operator : Operator
  values : ValueSet
  sound : Requirement.fault? key operator values = none
  deriving DecidableEq

namespace Requirement

/-- The requirement of a key, an operator and values, or what is wrong with them. -/
def build (key : String) (operator : Operator) (values : ValueSet) : Except Fault Requirement :=
  match h : fault? key operator values with
  | none => .ok ⟨key, operator, values, h⟩
  | some fault => .error fault

/-- Whether a requirement names a value. -/
def hasValue (requirement : Requirement) (value : String) : Bool :=
  requirement.values.contains value

/-- The least value of a requirement. -/
def firstValue? (requirement : Requirement) : Option String :=
  requirement.values.toList.head?

/-- The value of a requirement that names exactly one. -/
def onlyValue? (requirement : Requirement) : Option String :=
  match requirement.values.toList with
  | [value] => some value
  | _ => none

/-! ## Building -/

/-- A requirement is built from parts with which nothing is wrong. -/
theorem build_eq_ok_iff {key : String} {operator : Operator} {values : ValueSet}
    {requirement : Requirement} :
    build key operator values = .ok requirement ↔
      requirement.key = key ∧ requirement.operator = operator ∧ requirement.values = values := by
  unfold build
  split
  · constructor
    · intro h
      cases h
      exact ⟨rfl, rfl, rfl⟩
    · rintro ⟨rfl, rfl, rfl⟩
      rfl
  · rename_i fault h
    constructor
    · intro h'
      cases h'
    · rintro ⟨rfl, rfl, rfl⟩
      simp [requirement.sound] at h

/-- Parts that do not fit fail with what is wrong with them. -/
theorem build_eq_error_iff {key : String} {operator : Operator} {values : ValueSet}
    {fault : Fault} :
    build key operator values = .error fault ↔ fault? key operator values = some fault := by
  unfold build
  split <;> simp_all

/-- A requirement is built again from its own parts. -/
@[simp] theorem build_self (requirement : Requirement) :
    build requirement.key requirement.operator requirement.values = .ok requirement :=
  build_eq_ok_iff.2 ⟨rfl, rfl, rfl⟩

/-- Requirements with the same parts are equal. -/
@[ext] theorem ext {a b : Requirement} (hk : a.key = b.key) (ho : a.operator = b.operator)
    (hv : a.values = b.values) : a = b := by
  cases a
  cases b
  simp_all

end Requirement

/-! ## Drafts -/

/-- A requirement as written down: the operator by its text, the values in any order. -/
structure Draft where
  key : String
  operator : String
  values : List String
  deriving DecidableEq, Repr

/-- The requirement that a draft describes, or what is wrong with it, its operator first. -/
def Draft.build (draft : Draft) : Except Fault Requirement := do
  let operator ← Operator.ofText draft.operator
  Requirement.build draft.key operator (ValueSet.ofList draft.values)

/-- The requirements that drafts describe; the first draft that is wrong decides the fault. -/
def Draft.buildAll (drafts : List Draft) : Except Fault (List Requirement) :=
  drafts.mapM Draft.build

end LabelSelector
