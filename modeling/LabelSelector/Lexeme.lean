/-
LabelSelector.Lexeme — the words and symbols of a text, in order.

`next` reads one lexeme off the front of a text: it skips blanks, then takes either the longest
known literal of symbols that stands there, or the longest run of word characters.
Every read takes at least one character until the text is used up (`length_next_lt`), so `ofText`,
which reads on until the end, terminates; its last lexeme is the end of the text.
-/
import LabelSelector.Token

namespace LabelSelector

/-- A kind of word or symbol with the text it was read from. -/
structure Lexeme where
  token : Token
  literal : String
  deriving DecidableEq, Repr

namespace Lexeme

/-- What stands after the last word or symbol of every text. -/
def endOfText : Lexeme :=
  ⟨.endOfText, ""⟩

/-- The kind and the characters of what a text starts with. The text must not start with a
blank. -/
def head : List Char → Token × List Char
  | [] => (.endOfText, [])
  | c :: rest =>
    if Text.isSymbol c then
      Token.ofSymbols (c :: rest)
    else
      let word := (c :: rest).takeWhile Text.isWordChar
      (Token.ofWord word, word)

/-- The first lexeme of a text, and the text that follows it. -/
def next (text : List Char) : Lexeme × List Char :=
  let body := text.dropWhile Text.isBlank
  let (token, literal) := head body
  (⟨token, String.ofList literal⟩, body.drop literal.length)

/-- The lexeme as it counts outside operator position, where the keywords are ordinary words. -/
def asWord (lexeme : Lexeme) : Lexeme :=
  { lexeme with token := lexeme.token.asWord }

/-- Only the end of the text counts as the end of the text. -/
theorem asWord_token_eq_endOfText {lexeme : Lexeme} :
    lexeme.asWord.token = .endOfText ↔ lexeme.token = .endOfText := by
  obtain ⟨token, literal⟩ := lexeme
  cases token <;> simp [asWord, Token.asWord]

/-! ## Progress -/

/-- What is found at the front of a text is a beginning of that text. -/
theorem head_isPrefix (text : List Char) : (head text).2 <+: text := by
  unfold head
  split
  · exact List.prefix_rfl
  · split
    · exact Token.ofSymbols_isPrefix _
    · exact List.takeWhile_prefix _

/-- Something is found at the front of a text that starts with no blank. -/
theorem head_ne_nil {c : Char} {rest : List Char} (h : Text.isBlank c = false) :
    (head (c :: rest)).2 ≠ [] := by
  by_cases hs : Text.isSymbol c = true
  · simp only [head, hs, if_true]
    exact Token.ofSymbols_ne_nil hs
  · have hw : Text.isWordChar c = true := Text.isWordChar_of_not h (by simpa using hs)
    simp [head, hs, hw]

/-- A text without leading blanks starts with none. -/
theorem isBlank_of_dropWhile {text rest : List Char} {c : Char}
    (h : text.dropWhile Text.isBlank = c :: rest) : Text.isBlank c = false := by
  have := List.head?_dropWhile_not Text.isBlank text
  simpa [h] using this

/-- A read that is not at the end of the text leaves a shorter text. -/
theorem length_next_lt {text : List Char} (h : (next text).1.token ≠ .endOfText) :
    (next text).2.length < text.length := by
  have hle : (text.dropWhile Text.isBlank).length ≤ text.length :=
    (List.dropWhile_suffix _).length_le
  cases hbody : text.dropWhile Text.isBlank with
  | nil => simp [next, hbody, head] at h
  | cons c rest =>
    have hne : (head (c :: rest)).2 ≠ [] := head_ne_nil (isBlank_of_dropWhile hbody)
    have hpos : 0 < (head (c :: rest)).2.length := List.length_pos_iff.2 hne
    simp only [next, hbody, List.length_drop]
    rw [hbody] at hle
    simp only [List.length_cons] at hle ⊢
    omega

/-! ## The lexemes of a text -/

/-- The lexemes of a text up to and with its end. A run of unknown symbols ends it early. -/
def ofText (text : List Char) : List Lexeme :=
  if (next text).1.token = .endOfText ∨ (next text).1.token = .unknown then
    [(next text).1]
  else
    (next text).1 :: ofText (next text).2
termination_by text.length
decreasing_by
  rename_i more
  exact length_next_lt fun ended => more (.inl ended)

/-- A text that starts with a known word or symbol has it as its first lexeme. -/
theorem ofText_cons {text : List Char} (he : (next text).1.token ≠ .endOfText)
    (hu : (next text).1.token ≠ .unknown) :
    ofText text = (next text).1 :: ofText (next text).2 := by
  rw [ofText]
  simp [he, hu]

/-- A text of blanks has no lexeme but its end. -/
theorem ofText_of_dropWhile_eq_nil {text : List Char} (h : text.dropWhile Text.isBlank = []) :
    ofText text = [endOfText] := by
  rw [ofText]
  simp [next, h, head, endOfText]

end Lexeme

end LabelSelector
