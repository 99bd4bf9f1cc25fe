/-
LabelSelector.Operator — how a requirement relates a key to its values.

Operators have a text and an order. The text is what a requirement built by hand names them by;
`ofText` reads it back (`ofText_text`). The order is the order of declaration, and it decides
between requirements on one key.
-/
import LabelSelector.Fault

namespace LabelSelector

/-- How a requirement relates a key to its values. -/
inductive Operator where
  /-- The key is not there. -/
  | absent
  /-- The key has the value. -/
  | equals
  /-- The key has the value, written with two signs. -/
  | doubleEquals
  /-- The key has one of the values. -/
  | isIn
  /-- The key is not there or has another value. -/
  | notEquals
  /-- The key is not there or has none of the values. -/
  | notIn
  /-- The key is there. -/
  | present
  /-- The key has an integer above the bound. -/
  | greaterThan
  /-- The key has an integer below the bound. -/
  | lessThan
  deriving DecidableEq, Repr

namespace Operator

/-- The text that names an operator. -/
def text : Operator → String
  | .absent => "!"
  | .equals => "="
  | .doubleEquals => "=="
  | .isIn => "in"
  | .notEquals => "!="
  | .notIn => "notin"
  | .present => "exists"
  | .greaterThan => "gt"
  | .lessThan => "lt"

/-- The operators written before a key. -/
def unary : List Operator :=
  [.absent]

/-- The operators written between a key and its values. -/
def binary : List Operator :=
  [.isIn, .notIn, .equals, .doubleEquals, .notEquals, .greaterThan, .lessThan]

/-- All operators, in the order they are listed in. -/
def all : List Operator :=
  binary ++ [.present, .absent]

/-- The texts of some operators as one line. -/
def listing (operators : List Operator) : String :=
  ", ".intercalate (operators.map text)

/-- The operator that a text names. -/
def ofText (name : String) : Except Fault Operator :=
  match all.find? fun operator => operator.text == name with
  | some operator => .ok operator
  | none => .error (.unsupportedOperator name (listing all))

/-! ## Order -/

/-- The place of an operator in the order of declaration. -/
def rank : Operator → Nat
  | .absent => 0
  | .equals => 1
  | .doubleEquals => 2
  | .isIn => 3
  | .notEquals => 4
  | .notIn => 5
  | .present => 6
  | .greaterThan => 7
  | .lessThan => 8

instance : Ord Operator :=
  ⟨compareOn rank⟩

/-- Different operators have different places. -/
theorem rank_injective {a b : Operator} (h : a.rank = b.rank) : a = b := by
  cases a <;> cases b <;> simp_all [rank]

instance : Std.TransOrd Operator :=
  inferInstanceAs (Std.TransCmp (compareOn rank))

/-- Operators that compare equal are equal. -/
theorem eq_of_compare {a b : Operator} (h : compare a b = .eq) : a = b :=
  rank_injective (Nat.compare_eq_eq.1 h)

instance : Std.LawfulEqOrd Operator where
  eq_of_compare := eq_of_compare

/-! ## Texts -/

/-- Every operator is listed. -/
theorem mem_all (operator : Operator) : operator ∈ all := by
  cases operator <;> decide

/-- Different operators have different texts. -/
theorem text_injective {a b : Operator} (h : a.text = b.text) : a = b := by
  cases a <;> cases b <;> simp_all [text]

/-- The text of an operator names it. -/
@[simp] theorem ofText_text (operator : Operator) : ofText operator.text = .ok operator := by
  unfold ofText
  cases h : all.find? fun other => other.text == operator.text with
  | none =>
    have := List.find?_eq_none.1 h operator (mem_all operator)
    simp at this
  | some other =>
    have := List.find?_some h
    simp only [beq_iff_eq] at this
    simp [text_injective this]

end Operator

end LabelSelector
