/-
LabelSelector.Fault — why a text is no selector, or a requirement cannot be built.

A fault is a cause with the texts it is about; its wording is `Fault.message` alone.
-/
namespace LabelSelector

/-- A cause of failure. -/
inductive Fault where
  /-- A run of symbols that the selector language does not have. -/
  | unknownSymbol (literal : String)
  /-- A word or symbol stands where something else was expected. -/
  | unexpected (found expected : String)
  /-- A key or value that selector text cannot spell. -/
  | invalidIdentifier (literal : String)
  /-- A membership requirement without values. -/
  | noValues
  /-- An equality requirement without exactly one value. -/
  | notOneValue
  /-- A presence requirement with values. -/
  | unwantedValues
  /-- A comparison requirement without exactly one bound. -/
  | notOneBound
  /-- A comparison requirement whose bound is not a signed 64-bit integer. -/
  | boundNotInteger (value : String)
  /-- A text that names no operator, with a listing of those there are. -/
  | unsupportedOperator (operator listing : String)
  /-- What is wrong with one requirement of a selector. -/
  | inRequirement (cause : Fault)
  deriving DecidableEq, Repr

namespace Fault

/-- The wording of a fault. -/
def message : Fault → String
  | .unknownSymbol literal => "error expected: keyword found " ++ literal
  | .unexpected found expected => "found '" ++ found ++ "', expected " ++ expected
  | .invalidIdentifier literal => "'" ++ literal ++ "' is not a valid selector identifier"
  | .noValues => "for 'in' and 'notin' operator, values set can't be empty"
  | .notOneValue => "exact-match compatibility requires one single value"
  | .unwantedValues => "values set must be empty for exists and does not exist"
  | .notOneBound => "for 'gt' and 'lt' operators, exactly one value is required"
  | .boundNotInteger value =>
    "for 'gt' and 'lt' operators, the value must be an integer, found '" ++ value ++ "'"
  | .unsupportedOperator operator listing =>
    "operator " ++ operator ++ " not supported, valid operators are: " ++ listing
  | .inRequirement cause => "unable to parse requirement: " ++ cause.message

end Fault

end LabelSelector
