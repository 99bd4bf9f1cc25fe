/-
LabelSelector.Text.Identifier — which texts can stand as a key or a value in a selector.

Seven characters are symbols of the selector language. A word ends at a symbol or a blank, so a
text can be spelled as one word exactly when it holds neither. The empty text passes the test: an
empty value can be spelled (`key=`), and that a key is not empty is for the requirement to check.
-/
import LabelSelector.Text.Blank

namespace LabelSelector.Text

/-- The characters with a meaning of their own in selector text. -/
def symbols : List Char :=
  ['=', '!', '(', ')', ',', '>', '<']

/-- Whether a character is one of `symbols`. -/
def isSymbol (c : Char) : Bool :=
  symbols.contains c

/-- The characters a word is made of: neither blank nor symbol. -/
def isWordChar (c : Char) : Bool :=
  !isBlank c && !isSymbol c

/-- Whether a text has word characters only, so that selector text can spell it as one word. -/
def isIdentifier (text : String) : Bool :=
  text.toList.all isWordChar

/-! ## The three classes of character -/

/-- A symbol is not a blank. -/
theorem isBlank_eq_false_of_isSymbol {c : Char} (h : isSymbol c = true) : isBlank c = false := by
  simp only [isSymbol, symbols, List.contains_iff_mem, List.mem_cons, List.not_mem_nil,
    or_false] at h
  rcases h with rfl | rfl | rfl | rfl | rfl | rfl | rfl <;> decide

/-- A word character is not a blank. -/
theorem isBlank_eq_false_of_isWordChar {c : Char} (h : isWordChar c = true) :
    isBlank c = false := by
  simp_all [isWordChar]

/-- A word character is not a symbol. -/
theorem isSymbol_eq_false_of_isWordChar {c : Char} (h : isWordChar c = true) :
    isSymbol c = false := by
  simp_all [isWordChar]

/-- A character that is neither blank nor symbol is a word character. -/
theorem isWordChar_of_not {c : Char} (hb : isBlank c = false) (hs : isSymbol c = false) :
    isWordChar c = true := by
  simp [isWordChar, hb, hs]

/-! ## Identifiers -/

/-- A text is an identifier when each of its characters is a word character. -/
theorem isIdentifier_iff {text : String} :
    isIdentifier text = true ↔ ∀ c ∈ text.toList, isWordChar c = true := by
  simp [isIdentifier]

/-- The empty text is an identifier. -/
@[simp] theorem isIdentifier_empty : isIdentifier "" = true := by
  simp [isIdentifier]

end LabelSelector.Text
