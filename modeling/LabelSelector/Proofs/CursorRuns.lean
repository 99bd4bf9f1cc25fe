/-
LabelSelector.Proofs.CursorRuns — moving through a text by bytes and moving by characters.

A `Place` is a text as the characters passed and the characters ahead, and its moves know nothing
of bytes: `read` passes one character, `unread` gives the nearest one back, and `lex` finds what a
new cursor finds in the characters ahead alone and passes the blanks and that literal.

Each move keeps a cursor and the place where it stands together (`move_standsAt`), and so does a run
of moves in any order (`run_follows_place`): it finds the same on both sides, and wherever it leads,
the offset of the cursor is the length of the characters passed, on the boundary between two
characters.
-/
import LabelSelector.Proofs.Scanning

namespace LabelSelector

open Text

/-! ## 1. Moving by characters -/

/-- A text as it is divided by the place where a reader stands. -/
structure Place where
  /-- The characters passed, the nearest first. -/
  passed : List Char
  /-- The characters not yet read. -/
  ahead : List Char
  deriving DecidableEq, Repr

namespace Place

/-- The place before a text. -/
def start (text : String) : Place :=
  ⟨[], text.toList⟩

/-- Passes the next character; at the end there is none, and the place stays. -/
def read : Place → Option Char × Place
  | ⟨passed, c :: ahead⟩ => (some c, ⟨c :: passed, ahead⟩)
  | ⟨passed, []⟩ => (none, ⟨passed, []⟩)

/-- Gives back the nearest character passed; at the start there is none, and the place stays. -/
def unread : Place → Place
  | ⟨c :: passed, ahead⟩ => ⟨passed, c :: ahead⟩
  | ⟨[], ahead⟩ => ⟨[], ahead⟩

/-- Finds the first lexeme of the characters ahead as a text of their own, and passes the blanks
before it and its literal. -/
def lex (place : Place) : Lexeme × Place :=
  let lexeme := (Cursor.start (String.ofList place.ahead)).lex.1
  let taken := place.ahead.takeWhile isBlank ++ lexeme.literal.toList
  (lexeme, ⟨taken.reverse ++ place.passed, place.ahead.drop taken.length⟩)

/-- What one move finds, and the place it leads to. -/
def move (place : Place) : Cursor.Move → Cursor.Finding × Place
  | .read => (.char place.read.1, place.read.2)
  | .unread => (.none, place.unread)
  | .lex => (.lexeme place.lex.1, place.lex.2)

/-- What a sequence of moves finds, each with the place it leads to. -/
def run (place : Place) : List Cursor.Move → List (Cursor.Finding × Place)
  | [] => []
  | m :: moves => place.move m :: (place.move m).2.run moves

end Place

namespace Cursor

variable {cursor : Cursor} {place : Place}

/-! ## 2. Runs of moves -/

/-- A cursor stands at a place of its text. -/
def StandsAt (cursor : Cursor) (place : Place) : Prop :=
  cursor.At place.passed.reverse place.ahead

theorem start_standsAt (text : String) : (start text).StandsAt (Place.start text) :=
  start_at text

theorem read_standsAt (h : cursor.StandsAt place) :
    cursor.read.1 = place.read.1 ∧ cursor.read.2.StandsAt place.read.2 := by
  obtain ⟨passed, ahead⟩ := place
  cases ahead with
  | nil =>
    rw [read_at_end h]
    exact ⟨rfl, h⟩
  | cons c ahead =>
    have hat : cursor.At passed.reverse (c :: ahead) := h
    have hpass : (cursor.pass [c]).At (passed.reverse ++ [c]) ahead := hat.pass
    rw [read_at hat]
    refine ⟨rfl, ?_⟩
    simpa [StandsAt, Place.read] using hpass

theorem unread_standsAt (h : cursor.StandsAt place) : cursor.unread.StandsAt place.unread := by
  obtain ⟨passed, ahead⟩ := place
  cases passed with
  | nil => exact unread_at_start h
  | cons c passed =>
    have hat : cursor.At (passed.reverse ++ [c]) ahead := by simpa [StandsAt] using h
    exact unread_at hat

/-- A cursor finds what a new one finds in the text ahead, and passes it there. -/
theorem lex_standsAt (h : cursor.StandsAt place) :
    cursor.lex.1 = place.lex.1 ∧ cursor.lex.2.StandsAt place.lex.2 := by
  obtain ⟨passed, ahead⟩ := place
  obtain ⟨hfirst, hat⟩ := lex_at h
  have hnew : (start (String.ofList ahead)).lex.1 = (Lexeme.next ahead).1 := by
    rw [(lex_at (start_at _)).1, String.toList_ofList]
  have hsplit := Lexeme.next_split ahead
  rw [← List.append_assoc] at hsplit
  have hdrop := congrArg (List.drop (ahead.takeWhile isBlank ++
    (Lexeme.next ahead).1.literal.toList).length) hsplit
  rw [List.drop_left] at hdrop
  refine ⟨hfirst.trans hnew.symm, ?_⟩
  rw [hdrop] at hat
  simpa [StandsAt, Place.lex, hnew] using hat

/-- A move keeps a cursor and its place together, and finds the same on both sides. -/
theorem move_standsAt (h : cursor.StandsAt place) (m : Move) :
    (cursor.move m).1 = (place.move m).1 ∧ (cursor.move m).2.StandsAt (place.move m).2 := by
  cases m with
  | read =>
    obtain ⟨hfound, hstands⟩ := read_standsAt h
    exact ⟨congrArg Finding.char hfound, hstands⟩
  | unread => exact ⟨rfl, unread_standsAt h⟩
  | lex =>
    obtain ⟨hfound, hstands⟩ := lex_standsAt h
    exact ⟨congrArg Finding.lexeme hfound, hstands⟩

/-- What one move by bytes comes to is what a move by characters does: it finds the same, and it
leaves a cursor of the same text at the same place, on the boundary between two characters. -/
structure Follows (text : String) (step : Finding × Cursor) (expected : Finding × Place) :
    Prop where
  finding : step.1 = expected.1
  text_eq : step.2.text = text
  stands : step.2.At expected.2.passed.reverse expected.2.ahead
  isValid : step.2.offset.IsValid text

theorem run_follows (h : cursor.StandsAt place) (moves : List Move) :
    List.Forall₂ (Follows cursor.text) (cursor.run moves) (place.run moves) := by
  induction moves generalizing cursor place with
  | nil => exact .nil
  | cons m moves ih =>
    obtain ⟨hfound, hstands⟩ := move_standsAt h m
    have htext := move_text cursor m
    have hrest := ih hstands
    have hvalid := hstands.isValid
    rw [htext] at hrest hvalid
    exact .cons ⟨hfound, htext, hstands, hvalid⟩ hrest

/-- From the start of a text, every run of moves by bytes goes as the same run by characters does,
whatever the moves and their order are. -/
theorem run_follows_place (text : String) (moves : List Move) :
    List.Forall₂ (Follows text) ((start text).run moves) ((Place.start text).run moves) :=
  run_follows (start_standsAt text) moves

end Cursor

end LabelSelector
