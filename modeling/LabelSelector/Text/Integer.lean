/-
LabelSelector.Text.Integer — reading a text as a signed 64-bit integer.

The accepted texts are an optional single sign followed by one or more ASCII digits, with any
number of leading zeros, whose value lies between `-2^63` and `2^63 - 1`. `int64?` gives the value
as an `Int`, so that a comparison of two such values never wraps; `int64?_mem_range` says that the
value is in range.
-/
namespace LabelSelector.Text

/-- The value of a run of digits read after digits of value `acc`, or nothing at a non-digit. -/
def digitsFrom? (acc : Nat) : List Char → Option Nat
  | [] => some acc
  | c :: rest => if c.isDigit then digitsFrom? (10 * acc + (c.toNat - '0'.toNat)) rest else none

/-- The value of a text of one or more ASCII digits. -/
def digits? : List Char → Option Nat
  | [] => none
  | c :: rest => digitsFrom? 0 (c :: rest)

/-- The value of digits with at most one sign in front of them. -/
def signed? : List Char → Option Int
  | '-' :: digits => (digits? digits).map fun n => -(n : Int)
  | '+' :: digits => (digits? digits).map fun n => (n : Int)
  | digits => (digits? digits).map fun n => (n : Int)

/-- The least signed 64-bit integer. -/
def int64Min : Int := -9223372036854775808

/-- The greatest signed 64-bit integer. -/
def int64Max : Int := 9223372036854775807

/-- The signed 64-bit integer that a text denotes, if it denotes one. -/
def int64? (text : String) : Option Int :=
  (signed? text.toList).filter fun n => int64Min ≤ n && n ≤ int64Max

/-! ## What is read is in range -/

/-- A value that is read is a signed 64-bit integer. -/
theorem int64?_mem_range {text : String} {n : Int} (h : int64? text = some n) :
    int64Min ≤ n ∧ n ≤ int64Max := by
  simp only [int64?, Option.filter_eq_some_iff, Bool.and_eq_true, decide_eq_true_eq] at h
  exact h.2

end LabelSelector.Text
