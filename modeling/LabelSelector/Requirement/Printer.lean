/-
LabelSelector.Requirement.Printer — the canonical text of a requirement.

`!key`, `key`, `key in (a,b)`, `key notin (a,b)`, and `key` with a sign and one value for the
other operators: `key=v`, `key==v`, `key!=v`, `key>v`, `key<v`. Values stand in ascending order,
without blanks between them; a value that is empty is written as nothing.
-/
import LabelSelector.Requirement

namespace LabelSelector

/-- How an operator is written between a key and its values. -/
def Operator.sign : Operator → String
  | .greaterThan => ">"
  | .lessThan => "<"
  | operator => operator.text

namespace Requirement

/-- A list of values between parentheses. -/
def parenthesized (values : List String) : String :=
  "(" ++ ",".intercalate values ++ ")"

/-- The canonical text of a requirement. -/
def text (requirement : Requirement) : String :=
  match requirement.operator with
  | .absent => "!" ++ requirement.key
  | .present => requirement.key
  | .isIn | .notIn =>
    requirement.key ++ " " ++ requirement.operator.sign ++ " " ++
      parenthesized requirement.values.toList
  | .equals | .doubleEquals | .notEquals | .greaterThan | .lessThan =>
    requirement.key ++ requirement.operator.sign ++ requirement.firstValue?.getD ""

/-- The canonical texts of some requirements, separated by commas. -/
def textAll (requirements : List Requirement) : String :=
  ",".intercalate (requirements.map text)

instance : ToString Requirement :=
  ⟨text⟩

end Requirement

end LabelSelector
