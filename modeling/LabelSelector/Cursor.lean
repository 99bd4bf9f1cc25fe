/-
LabelSelector.Cursor — reading a text by hand, one character or one lexeme at a time.

A cursor is a text with the byte offset it has been read up to, so that moving it copies nothing.
The offset is a plain byte count; that every move from the start keeps it on the boundary between
two characters is a property of the moves, not of the type.

A run of symbols is scanned by characters (`scanSymbols`): the text read since the run began is
looked up after each of them, the literal confirmed last is kept, and the character that ends the
scan is given back. What the scan comes to is the longest literal that stands at the cursor, but
nothing here relies on that.
-/
import LabelSelector.Lexeme

namespace LabelSelector

/-- A text and how far it has been read, in bytes. -/
structure Cursor where
  text : String
  offset : String.Pos.Raw

namespace Cursor

/-- The cursor at the start of a text. -/
def start (text : String) : Cursor :=
  ⟨text, 0⟩

/-- The characters not yet read. -/
def rest (cursor : Cursor) : List Char :=
  (cursor.offset.extract cursor.text cursor.text.rawEndPos).toList

/-- The text from an earlier offset up to the cursor. -/
def since (cursor : Cursor) (origin : String.Pos.Raw) : String :=
  origin.extract cursor.text cursor.offset

/-- The cursor after some characters have been passed. -/
def pass (cursor : Cursor) (passed : List Char) : Cursor :=
  { cursor with offset := cursor.offset + String.ofList passed }

/-- Reads and passes the next character; at the end there is none, and the cursor stays. -/
def read (cursor : Cursor) : Option Char × Cursor :=
  match cursor.offset.get? cursor.text with
  | some c => (some c, { cursor with offset := cursor.offset.next cursor.text })
  | none => (none, cursor)

/-- Steps back one character; at the start the cursor stays. -/
def unread (cursor : Cursor) : Cursor :=
  { cursor with offset := cursor.offset.prev cursor.text }

/-! ## Characters ahead -/

/-- An offset at which a list of characters has one is less than their length in bytes. -/
theorem byteIdx_lt_of_utf8GetAux? {chars : List Char} {first offset : String.Pos.Raw} {c : Char}
    (h : String.Pos.Raw.utf8GetAux? chars first offset = some c) :
    offset.byteIdx < first.byteIdx + (String.ofList chars).utf8ByteSize := by
  induction chars generalizing first with
  | nil => cases h
  | cons d chars ih =>
    have round : String.Pos.Raw.utf8GetAux? (d :: chars) first offset =
        if first = offset then some d
        else String.Pos.Raw.utf8GetAux? chars (first + d) offset := rfl
    rw [String.ofList_cons, String.utf8ByteSize_append, String.utf8ByteSize_singleton]
    rw [round] at h
    split at h
    · rename_i same
      subst same
      have positive := d.utf8Size_pos
      omega
    · have further := ih h
      rw [String.Pos.Raw.byteIdx_add_char] at further
      omega

/-- The bytes of the text from the cursor on. -/
def bytesAhead (cursor : Cursor) : Nat :=
  cursor.text.utf8ByteSize - cursor.offset.byteIdx

/-- A character that is read is no longer ahead. -/
theorem bytesAhead_read_lt {cursor after : Cursor} {c : Char}
    (h : cursor.read = (some c, after)) : after.bytesAhead < cursor.bytesAhead := by
  unfold read at h
  split at h
  · rename_i d found
    cases h
    have inside : cursor.offset.byteIdx < 0 + (String.ofList cursor.text.toList).utf8ByteSize :=
      byteIdx_lt_of_utf8GetAux? found
    rw [String.ofList_toList] at inside
    have onward := String.Pos.Raw.byteIdx_lt_byteIdx_next cursor.text cursor.offset
    simp only [bytesAhead]
    omega
  · cases h

/-! ## Lexemes -/

/-- Passes the blanks at the cursor. -/
def skipBlanks (cursor : Cursor) : Cursor :=
  cursor.pass (cursor.rest.takeWhile Text.isBlank)

/-- Reads the word at the cursor, and passes it. -/
def scanWord (cursor : Cursor) : Lexeme × Cursor :=
  let word := cursor.rest.takeWhile Text.isWordChar
  let literal := String.ofList word
  (⟨(Token.ofLiteral? literal).getD .identifier, literal⟩, cursor.pass word)

/-- What a scan of symbols ends with: the lexeme confirmed last, or all that was read since its
origin as an unknown one. -/
def conclude (cursor : Cursor) (origin : String.Pos.Raw) (last : Option Lexeme) : Lexeme × Cursor :=
  (last.getD ⟨.unknown, cursor.since origin⟩, cursor)

/-- Reads on in a run of symbols that began at `origin`, as long as the run is a literal, or until
it is one for the first time. The character that ends the scan is given back. -/
def scanSymbols (origin : String.Pos.Raw) (last : Option Lexeme) (cursor : Cursor) :
    Lexeme × Cursor :=
  match h : cursor.read with
  | (none, after) => after.conclude origin last
  | (some c, after) =>
    have : after.bytesAhead < cursor.bytesAhead := bytesAhead_read_lt h
    if Text.isSymbol c then
      match Token.ofLiteral? (after.since origin) with
      | some token => scanSymbols origin (some ⟨token, after.since origin⟩) after
      | none =>
        if last.isSome then after.unread.conclude origin last
        else scanSymbols origin last after
    else
      after.unread.conclude origin last
termination_by cursor.bytesAhead

/-- A scan is one character, and the scan again if the run may go on. -/
theorem scanSymbols_eq (origin : String.Pos.Raw) (last : Option Lexeme) (cursor : Cursor) :
    cursor.scanSymbols origin last =
      match cursor.read with
      | (none, after) => after.conclude origin last
      | (some c, after) =>
        if Text.isSymbol c then
          match Token.ofLiteral? (after.since origin) with
          | some token => after.scanSymbols origin (some ⟨token, after.since origin⟩)
          | none =>
            if last.isSome then after.unread.conclude origin last
            else after.scanSymbols origin last
        else
          after.unread.conclude origin last := by
  rw [scanSymbols]
  split <;> simp_all

/-- Reads the next lexeme, and passes the blanks before it and its literal. -/
def lex (cursor : Cursor) : Lexeme × Cursor :=
  let cursor := cursor.skipBlanks
  match cursor.read with
  | (none, after) => (.endOfText, after)
  | (some c, after) =>
    let cursor := after.unread
    if Text.isSymbol c then
      cursor.scanSymbols cursor.offset none
    else
      cursor.scanWord

/-! ## Sequences of moves -/

/-- One thing to do with a cursor. -/
inductive Move where
  | read
  | unread
  | lex
  deriving DecidableEq, Repr

/-- What a move finds. -/
inductive Finding where
  /-- The character read, if the text had not ended. -/
  | char (c : Option Char)
  /-- A step back finds nothing. -/
  | none
  | lexeme (lexeme : Lexeme)
  deriving DecidableEq, Repr

/-- What one move finds, and the cursor after it. -/
def move (cursor : Cursor) : Move → Finding × Cursor
  | .read => (.char cursor.read.1, cursor.read.2)
  | .unread => (.none, cursor.unread)
  | .lex => (.lexeme cursor.lex.1, cursor.lex.2)

/-- What a sequence of moves finds, each with the cursor after it. -/
def run (cursor : Cursor) : List Move → List (Finding × Cursor)
  | [] => []
  | m :: moves => cursor.move m :: (cursor.move m).2.run moves

/-! ## The text stays -/

@[simp] theorem pass_text (cursor : Cursor) (passed : List Char) :
    (cursor.pass passed).text = cursor.text :=
  rfl

@[simp] theorem unread_text (cursor : Cursor) : cursor.unread.text = cursor.text :=
  rfl

@[simp] theorem conclude_text (cursor : Cursor) (origin : String.Pos.Raw) (last : Option Lexeme) :
    (cursor.conclude origin last).2.text = cursor.text :=
  rfl

theorem read_text {cursor after : Cursor} {found : Option Char}
    (h : cursor.read = (found, after)) : after.text = cursor.text := by
  unfold read at h
  split at h <;> cases h <;> rfl

theorem scanSymbols_text (origin : String.Pos.Raw) (last : Option Lexeme) (cursor : Cursor) :
    (cursor.scanSymbols origin last).2.text = cursor.text := by
  fun_induction scanSymbols origin last cursor with
  | case1 last cursor after h => simp [read_text h]
  | case2 last cursor c after h _ _ token _ ih => rw [ih, read_text h]
  | case3 last cursor c after h _ _ _ _ => simp [read_text h]
  | case4 last cursor c after h _ _ _ _ ih => rw [ih, read_text h]
  | case5 last cursor c after h _ _ => simp [read_text h]

theorem lex_text (cursor : Cursor) : cursor.lex.2.text = cursor.text := by
  simp only [lex, skipBlanks, scanWord]
  split
  · rename_i h
    simp [read_text h]
  · rename_i h
    split
    · simp [scanSymbols_text, read_text h]
    · simp [read_text h]

/-- No move changes the text. -/
theorem move_text (cursor : Cursor) (m : Move) : (cursor.move m).2.text = cursor.text := by
  cases m with
  | read => exact read_text rfl
  | unread => exact cursor.unread_text
  | lex => exact cursor.lex_text

end Cursor

end LabelSelector
