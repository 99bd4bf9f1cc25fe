/-
LabelSelector.Proofs.Positions — where a cursor stands in its text.

A byte offset that falls between two characters cuts the text into the characters before it and
those after it, and `Cursor.At` names the two. They determine the cursor (`At.eq`), so each step by
characters can be said as an equation: reading passes the next character (`read_at`), stepping back
undoes that (`unread_pass`), and the text since an earlier place is what was passed since then
(`At.since_eq`).
-/
import LabelSelector.Cursor
import Mathlib.Data.String.Basic

namespace LabelSelector

namespace Cursor

variable {cursor other : Cursor} {before passed after : List Char} {c : Char}

/-! ## 1. Places in a text -/

/-- The cursor has passed the characters `before` and has the characters `after` ahead of it. -/
structure At (cursor : Cursor) (before after : List Char) : Prop where
  text : cursor.text = String.ofList (before ++ after)
  offset : cursor.offset = (String.ofList before).rawEndPos

theorem start_at (text : String) : (start text).At [] text.toList where
  text := by simp [start]
  offset := rfl

/-- A cursor is known by its place. -/
theorem At.eq (h : cursor.At before after) (h' : other.At before after) : cursor = other := by
  cases cursor
  cases other
  rw [mk.injEq]
  exact ⟨h.text.trans h'.text.symm, h.offset.trans h'.offset.symm⟩

/-- Between two characters of a text, and not past its end. -/
theorem At.isValid (h : cursor.At before after) : cursor.offset.IsValid cursor.text := by
  rw [h.text, h.offset, String.ofList_append]
  exact String.Pos.Raw.isValid_iff_exists_append.2 ⟨_, _, rfl, rfl⟩

/-- The text since an earlier place is what was passed since then. -/
theorem At.since_eq (h : cursor.At (before ++ passed) after) :
    cursor.since (String.ofList before).rawEndPos = String.ofList passed := by
  simp only [since, h.text, h.offset, String.rawEndPos_ofList, String.utf8Len_append]
  exact String.extract_of_valid before passed after

/-- What is not yet read is what is ahead. -/
theorem At.rest_eq (h : cursor.At before after) : cursor.rest = after := by
  have hextract := String.extract_of_valid before after []
  rw [List.append_nil] at hextract
  simp only [rest, h.text, h.offset, String.rawEndPos_ofList, String.utf8Len_append]
  rw [hextract]
  simp

/-! ## 2. Passing characters -/

theorem At.pass (h : cursor.At before (passed ++ after)) :
    (cursor.pass passed).At (before ++ passed) after where
  text := by
    rw [List.append_assoc]
    exact h.text
  offset := by
    apply String.Pos.Raw.ext
    simp [Cursor.pass, h.offset, String.utf8ByteSize_ofList]

/-- Passing the next character makes what was passed since an earlier place longer by it. -/
theorem At.pass_next (h : cursor.At (before ++ passed) (c :: after)) :
    (cursor.pass [c]).At (before ++ (passed ++ [c])) after := by
  rw [← List.append_assoc]
  exact h.pass

theorem pass_nil (cursor : Cursor) : cursor.pass [] = cursor := by
  have hoffset : cursor.offset + String.ofList [] = cursor.offset := by
    apply String.Pos.Raw.ext
    simp
  rw [pass, hoffset]

theorem pass_append (cursor : Cursor) (first second : List Char) :
    (cursor.pass first).pass second = cursor.pass (first ++ second) := by
  have hoffset : cursor.offset + String.ofList first + String.ofList second =
      cursor.offset + String.ofList (first ++ second) := by
    apply String.Pos.Raw.ext
    simp [String.ofList_append, Nat.add_assoc]
  simp only [pass, hoffset]

/-! ## 3. Single characters -/

theorem read_at (h : cursor.At before (c :: after)) : cursor.read = (some c, cursor.pass [c]) := by
  have hget : cursor.offset.get? cursor.text = some c := by
    simp only [h.text, h.offset, String.rawEndPos_ofList]
    exact String.get?_of_valid before (c :: after)
  have hnext : cursor.offset.next cursor.text = cursor.offset + String.ofList [c] := by
    simp only [h.text, h.offset, String.rawEndPos_ofList]
    rw [String.next_of_valid]
    apply String.Pos.Raw.ext
    simp
  rw [read, hget, hnext]
  rfl

theorem read_at_end (h : cursor.At before []) : cursor.read = (none, cursor) := by
  have hget : cursor.offset.get? cursor.text = none := by
    simp only [h.text, h.offset, String.rawEndPos_ofList]
    exact String.get?_of_valid before []
  unfold read
  rw [hget]

theorem unread_at (h : cursor.At (before ++ [c]) after) :
    cursor.unread.At before (c :: after) := by
  refine ⟨?_, ?_⟩
  · simpa [unread] using h.text
  · simp only [unread, h.text, h.offset, String.rawEndPos_ofList]
    rw [List.append_assoc]
    simpa using String.prev_of_valid before c after

theorem unread_at_start (h : cursor.At [] after) : cursor.unread.At [] after := by
  refine ⟨h.text, ?_⟩
  simp [unread, h.offset]

/-- Stepping back gives the character just passed back. -/
theorem unread_pass (h : cursor.At before (c :: after)) : (cursor.pass [c]).unread = cursor := by
  have hpass : (cursor.pass [c]).At (before ++ [c]) after := h.pass
  exact (unread_at hpass).eq h

end Cursor

end LabelSelector
