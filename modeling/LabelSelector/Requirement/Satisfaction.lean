/-
LabelSelector.Requirement.Satisfaction — which label maps a requirement holds of.

Keys and values are compared exactly as they are. The comparisons read the label's value and the
bound as signed 64-bit integers; a key without a value, or with one that is no such integer,
satisfies neither.
-/
import LabelSelector.LabelMap
import LabelSelector.Requirement

namespace LabelSelector

namespace Requirement

/-- The bound of a comparison. -/
def bound? (requirement : Requirement) : Option Int :=
  requirement.firstValue?.bind Text.int64?

/-- Whether the integers that a key's value and the bound denote stand in a relation. -/
def compares (requirement : Requirement) (relation : Int → Int → Bool) (labels : LabelMap) :
    Bool :=
  match (labels.get? requirement.key).bind Text.int64?, requirement.bound? with
  | some actual, some bound => relation actual bound
  | _, _ => false

/-- Whether a label map satisfies a requirement. -/
def satisfiedBy (requirement : Requirement) (labels : LabelMap) : Bool :=
  match requirement.operator with
  | .isIn | .equals | .doubleEquals =>
    (labels.get? requirement.key).any fun value => requirement.hasValue value
  | .notIn | .notEquals =>
    (labels.get? requirement.key).all fun value => !requirement.hasValue value
  | .present => labels.has requirement.key
  | .absent => !labels.has requirement.key
  | .greaterThan => requirement.compares (fun actual bound => bound < actual) labels
  | .lessThan => requirement.compares (fun actual bound => actual < bound) labels

/-- A requirement looks at the value of its own key only. -/
theorem satisfiedBy_congr {requirement : Requirement} {a b : LabelMap}
    (h : a.get? requirement.key = b.get? requirement.key) :
    requirement.satisfiedBy a = requirement.satisfiedBy b := by
  simp [satisfiedBy, compares, LabelMap.has, h]

end Requirement

end LabelSelector
