/-
LabelSelector.Proofs.IntegerTexts — which texts denote a signed 64-bit integer, and which one.

`Denotes` says it of a text as a whole: one sign or none (`Signed`) stands before one or more ASCII
digits, which are a number to the base ten, and with its sign this number is in range. The reader
goes from left to right instead and keeps the number of the digits behind it; each digit more makes
that ten times as much and adds its own value (`digitsFrom?_eq_some_iff`). It reads the texts that
denote an integer and no others (`int64?_eq_some_iff`), so a text denotes one integer at most.
-/
import LabelSelector.Text.Identifier
import LabelSelector.Text.Integer
import Mathlib.Data.Nat.Digits.Defs
import Mathlib.Tactic.Ring

namespace LabelSelector.Text

variable {c : Char} {chars digits : List Char} {text : String}

/-! ## 1. Digits -/

/-- One of the ten ASCII digits. -/
def IsDigit (c : Char) : Prop :=
  '0' ≤ c ∧ c ≤ '9'

instance (c : Char) : Decidable (IsDigit c) :=
  inferInstanceAs (Decidable ('0' ≤ c ∧ c ≤ '9'))

theorem isDigit_iff : c.isDigit = true ↔ IsDigit c := by
  simp [Char.isDigit, IsDigit, Char.le_def]

/-- The number that digits denote to the base ten, the highest digit first. -/
def number (digits : List Char) : Nat :=
  Nat.ofDigits 10 (digits.reverse.map fun c => c.toNat - '0'.toNat)

@[simp] theorem number_nil : number [] = 0 :=
  rfl

theorem number_cons (c : Char) (rest : List Char) :
    number (c :: rest) = (c.toNat - '0'.toNat) * 10 ^ rest.length + number rest := by
  simp only [number, List.reverse_cons, List.map_append, List.map_cons, List.map_nil,
    Nat.ofDigits_append, Nat.ofDigits_singleton, List.length_map, List.length_reverse]
  ring

/-- Reading on from a number moves it up by as many places as there are digits. -/
theorem digitsFrom?_eq_some_iff {acc n : Nat} : digitsFrom? acc digits = some n ↔
    (∀ c ∈ digits, IsDigit c) ∧ n = acc * 10 ^ digits.length + number digits := by
  induction digits generalizing acc with
  | nil => simp [digitsFrom?, eq_comm]
  | cons c rest ih =>
    by_cases hc : c.isDigit = true
    · have hplaces : (10 * acc + (c.toNat - '0'.toNat)) * 10 ^ rest.length + number rest =
          acc * 10 ^ (c :: rest).length + number (c :: rest) := by
        rw [number_cons, List.length_cons]
        ring
      rw [digitsFrom?, if_pos hc, ih, hplaces, List.forall_mem_cons, ← isDigit_iff]
      simp only [hc, true_and]
    · rw [digitsFrom?, if_neg hc, List.forall_mem_cons, ← isDigit_iff]
      simp [hc]

theorem digits?_eq_some_iff {n : Nat} : digits? digits = some n ↔
    digits ≠ [] ∧ (∀ c ∈ digits, IsDigit c) ∧ n = number digits := by
  cases digits with
  | nil => simp [digits?]
  | cons c rest => simp [digits?, digitsFrom?_eq_some_iff]

/-! ## 2. Signs -/

/-- What a number is with one sign or none in front of it. -/
inductive Signed (n : Nat) : List Char → Int → Prop
  | bare : Signed n [] n
  | plus : Signed n ['+'] n
  | minus : Signed n ['-'] (-n)

/-- A number that is read is an integer from there on. -/
theorem map_cast (read : Option Nat) (f : Int → Int) :
    (do let n ← read; pure (n : Int)).map f = read.map fun n : Nat => f n := by
  cases read <;> rfl

theorem signed?_minus (digits : List Char) :
    signed? ('-' :: digits) = (digits? digits).map fun n : Nat => -(n : Int) :=
  map_cast _ _

theorem signed?_plus (digits : List Char) :
    signed? ('+' :: digits) = (digits? digits).map fun n : Nat => (n : Int) :=
  map_cast _ _

/-- Digits without a sign are read as they are. -/
theorem signed?_of_isDigit (hc : IsDigit c) :
    signed? (c :: digits) = (digits? (c :: digits)).map fun n : Nat => (n : Int) := by
  unfold signed?
  split
  · rename_i heq
    rw [(List.cons.inj heq).1] at hc
    exact absurd hc (by decide)
  · rename_i heq
    rw [(List.cons.inj heq).1] at hc
    exact absurd hc (by decide)
  · exact map_cast _ _

theorem signed?_eq_some_iff {n : Int} : signed? chars = some n ↔
    ∃ sign digits, chars = sign ++ digits ∧ digits ≠ [] ∧ (∀ c ∈ digits, IsDigit c) ∧
      Signed (number digits) sign n := by
  constructor
  · intro h
    unfold signed? at h
    split at h
    all_goals
      rw [map_cast] at h
      obtain ⟨m, hm, rfl⟩ := Option.map_eq_some_iff.1 h
      obtain ⟨hne, hall, rfl⟩ := digits?_eq_some_iff.1 hm
    · exact ⟨['-'], _, rfl, hne, hall, .minus⟩
    · exact ⟨['+'], _, rfl, hne, hall, .plus⟩
    · exact ⟨[], _, rfl, hne, hall, .bare⟩
  · rintro ⟨sign, digits, rfl, hne, hall, hsign⟩
    have hread : digits? digits = some (number digits) :=
      digits?_eq_some_iff.2 ⟨hne, hall, rfl⟩
    cases hsign with
    | minus =>
      rw [List.singleton_append, signed?_minus]
      exact Option.map_eq_some_iff.2 ⟨_, hread, rfl⟩
    | plus =>
      rw [List.singleton_append, signed?_plus]
      exact Option.map_eq_some_iff.2 ⟨_, hread, rfl⟩
    | bare =>
      obtain ⟨c, rest, rfl⟩ := List.exists_cons_of_ne_nil hne
      rw [List.nil_append, signed?_of_isDigit (hall c List.mem_cons_self)]
      exact Option.map_eq_some_iff.2 ⟨_, hread, rfl⟩

/-! ## 3. Texts -/

/-- A text denotes a signed 64-bit integer: it is one sign or none and one or more ASCII digits,
whose number with the sign is in range. -/
structure Denotes (text : String) (n : Int) : Prop where
  spelled : ∃ sign digits, text.toList = sign ++ digits ∧ digits ≠ [] ∧
    (∀ c ∈ digits, IsDigit c) ∧ Signed (number digits) sign n
  least : -2 ^ 63 ≤ n
  greatest : n ≤ 2 ^ 63 - 1

variable {m n : Int}

/-- The reader reads the texts that denote an integer, as that integer. -/
theorem int64?_eq_some_iff : int64? text = some n ↔ Denotes text n := by
  have hleast : int64Min = -2 ^ 63 := by decide
  have hgreatest : int64Max = 2 ^ 63 - 1 := by decide
  rw [int64?, Option.filter_eq_some_iff, signed?_eq_some_iff, Bool.and_eq_true,
    decide_eq_true_eq, decide_eq_true_eq, hleast, hgreatest]
  constructor
  · rintro ⟨hspelled, hleast, hgreatest⟩
    exact ⟨hspelled, hleast, hgreatest⟩
  · rintro ⟨hspelled, hleast, hgreatest⟩
    exact ⟨hspelled, hleast, hgreatest⟩

theorem isSome_int64?_iff : (int64? text).isSome = true ↔ ∃ n, Denotes text n := by
  simp only [Option.isSome_iff_exists, int64?_eq_some_iff]

theorem Denotes.eq (hm : Denotes text m) (hn : Denotes text n) : m = n := by
  have hread := int64?_eq_some_iff.2 hm
  rw [int64?_eq_some_iff.2 hn] at hread
  exact (Option.some.inj hread).symm

theorem IsDigit.isWordChar (h : IsDigit c) : isWordChar c = true := by
  have hleast : '0'.toNat ≤ c.toNat := h.1
  have hgreatest : c.toNat ≤ '9'.toNat := h.2
  have hzero : '0'.toNat = 48 := rfl
  have hnine : '9'.toNat = 57 := rfl
  apply isWordChar_of_not
  · simp [isBlank, blankRanges]
    omega
  · rw [Bool.eq_false_iff]
    intro hsymbol
    simp only [isSymbol, symbols, List.contains_iff_mem, List.mem_cons, List.not_mem_nil,
      or_false] at hsymbol
    rcases hsymbol with rfl | rfl | rfl | rfl | rfl | rfl | rfl <;> exact absurd h (by decide)

/-- Selector text can spell a text that denotes an integer. -/
theorem Denotes.isIdentifier (h : Denotes text n) : isIdentifier text = true := by
  obtain ⟨sign, digits, htext, -, hall, hsign⟩ := h.spelled
  rw [isIdentifier_iff, htext]
  intro c hmem
  rcases List.mem_append.1 hmem with hmem | hmem
  · cases hsign with
    | bare => cases hmem
    | plus =>
      rw [List.mem_singleton.1 hmem]
      decide
    | minus =>
      rw [List.mem_singleton.1 hmem]
      decide
  · exact (hall c hmem).isWordChar

/-- Zeros in front and a plus change nothing, and neither does the sign of zero; the ends of the
range are not alike. -/
example : int64? "+0007" = some 7 ∧ int64? "-0" = some 0 ∧ int64? "+-1" = none ∧
    int64? "-9223372036854775808" = some (-2 ^ 63) ∧ int64? "9223372036854775808" = none := by
  decide +kernel

end LabelSelector.Text
