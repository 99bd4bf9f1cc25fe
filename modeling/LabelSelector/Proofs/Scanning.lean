/-
LabelSelector.Proofs.Scanning — what a cursor finds when it reads a lexeme.

A scan of symbols keeps the literal confirmed last. As long as the table has a literal that goes on
with the next character, a round confirms it and passes that character (`scanSymbols_confirm`); at
the first character where there is none, the scan ends where it stands (`scanSymbols_stop`), be it
that the text ends, that the character is no symbol, or that it was read and given back.

That the longest literal is found is a property of the table: since every beginning of a literal
is a literal, a run that does not go on by one character does not go on at all (`longest_of_stuck`).
With it the invariant of the scan, that the characters since its origin are the literal confirmed,
gives by induction on the characters ahead that it ends with the longest one
(`scanSymbols_longest`).

So a lexeme is read where a cursor stands as `Lexeme.next` reads it from the characters ahead
(`lex_eq`), and a cursor that reads lexemes from there on finds those of the text ahead of it, up to
and with its end (`run_lex`).
-/
import LabelSelector.Proofs.Lexing
import LabelSelector.Proofs.Positions

namespace LabelSelector

/-! ## 1. Runs that go no further -/

namespace Token

variable {run ahead : List Char} {token : Token}

/-- No literal of symbols goes on from a run of characters with the next one. -/
def Stuck (run ahead : List Char) : Prop :=
  ∀ c ∈ ahead.head?, ∀ token, (run ++ [c], token) ∉ symbols

theorem stuck_nil (run : List Char) : Stuck run [] := by
  intro c hc
  cases hc

theorem exists_of_not_stuck {c : Char} (h : ¬ Stuck run (c :: ahead)) :
    ∃ token, (run ++ [c], token) ∈ symbols := by
  simpa [Stuck] using h

/-- A literal that does not go on with the next character is the longest. -/
theorem longest_of_stuck (mem : (run, token) ∈ symbols) (h : Stuck run ahead) :
    Longest (run ++ ahead) token run := by
  refine ⟨mem, List.prefix_append run ahead, fun entry hentry hp => Nat.le_of_not_lt fun hlt => ?_⟩
  -- A longer literal goes on from the run with the next character, and so far it is a literal too.
  obtain ⟨more, hmore⟩ := List.prefix_of_prefix_length_le (List.prefix_append run ahead) hp hlt.le
  rw [← hmore] at hp
  cases more with
  | nil => simp [← hmore] at hlt
  | cons c more =>
    obtain ⟨rest, rfl⟩ := (List.prefix_append_right_inj run).1 hp
    have hbeginning : run ++ [c] <+: entry.1 := ⟨more, by simp [← hmore]⟩
    obtain ⟨other, hother⟩ := exists_mem_symbols_of_prefix hentry hbeginning (by simp)
    exact h c rfl other hother

end Token

namespace Lexeme

open Text

/-! ## 2. What the first lexeme takes -/

/-- A text is the blanks before its first lexeme, that lexeme, and what follows. -/
theorem next_split (text : List Char) :
    text.takeWhile isBlank ++ ((next text).1.literal.toList ++ (next text).2) = text := by
  have hprefix := head_isPrefix (text.dropWhile isBlank)
  have hliteral : (next text).1.literal.toList = (head (text.dropWhile isBlank)).2 := by
    simp [next]
  have hrest : (next text).2 =
      (text.dropWhile isBlank).drop (head (text.dropWhile isBlank)).2.length := rfl
  rw [hliteral, hrest, List.prefix_iff_eq_append.1 hprefix, List.takeWhile_append_dropWhile]

theorem next_blanks {blanks : List Char} (hb : Blank blanks) :
    (next blanks).1 = endOfText := by
  have hbody : blanks.dropWhile isBlank = [] := List.dropWhile_eq_nil_iff.2 hb
  simp [next, hbody, head, endOfText]

end Lexeme

namespace Cursor

open Text hiding symbols
open Token

variable {cursor : Cursor} {before run ahead after : List Char} {token : Token} {c : Char}

/-! ## 3. A scan of symbols -/

/-- A round that makes the run a longer literal confirms it, whatever was confirmed before. -/
theorem scanSymbols_confirm (h : cursor.At (before ++ run) (c :: ahead))
    (mem : (run ++ [c], token) ∈ symbols) (last : Option Lexeme) :
    cursor.scanSymbols (String.ofList before).rawEndPos last =
      (cursor.pass [c]).scanSymbols (String.ofList before).rawEndPos
        (some ⟨token, String.ofList (run ++ [c])⟩) := by
  have hs : isSymbol c = true := isSymbol_of_mem_symbols _ mem c (by simp)
  have hlookup : ofLiteral? (String.ofList (run ++ [c])) = some token :=
    (ofLiteral?_run (by simp) hs).2 mem
  rw [scanSymbols_eq, read_at h]
  simp only [hs, if_true, h.pass_next.since_eq, hlookup]

/-- A scan that goes no further ends with what was confirmed, where it stands. -/
theorem scanSymbols_stop (h : cursor.At (before ++ run) ahead) (stuck : Stuck run ahead)
    (lexeme : Lexeme) :
    cursor.scanSymbols (String.ofList before).rawEndPos (some lexeme) = (lexeme, cursor) := by
  rw [scanSymbols_eq]
  cases ahead with
  | nil =>
    rw [read_at_end h]
    rfl
  | cons c ahead =>
    rw [read_at h]
    by_cases hs : isSymbol c = true
    · have hlookup : ofLiteral? (String.ofList (run ++ [c])) = none := by
        refine Option.eq_none_iff_forall_ne_some.2 fun token hsome => ?_
        exact stuck c rfl token ((ofLiteral?_run (by simp) hs).1 hsome)
      simp only [hs, if_true, h.pass_next.since_eq, hlookup, Option.isSome_some, unread_pass h]
      rfl
    · simp only [hs, unread_pass h]
      rfl

/-- What a scan comes to when it has passed the characters `run` and stands before `ahead`: it finds
the longest literal that these start with together, and passes the rest of it. -/
def FindsLongest (cursor : Cursor) (run ahead : List Char) (result : Lexeme × Cursor) : Prop :=
  ∃ found more, Longest (run ++ ahead) found (run ++ more) ∧
    result = (⟨found, String.ofList (run ++ more)⟩, cursor.pass more)

theorem FindsLongest.of_stuck (mem : (run, token) ∈ symbols) (stuck : Stuck run ahead) :
    FindsLongest cursor run ahead (⟨token, String.ofList run⟩, cursor) := by
  refine ⟨token, [], ?_, ?_⟩
  · rw [List.append_nil]
    exact longest_of_stuck mem stuck
  · rw [List.append_nil, pass_nil]

theorem FindsLongest.of_pass {result : Lexeme × Cursor}
    (h : FindsLongest (cursor.pass [c]) (run ++ [c]) ahead result) :
    FindsLongest cursor run (c :: ahead) result := by
  obtain ⟨found, more, longest, rfl⟩ := h
  rw [List.append_assoc, List.append_assoc] at longest
  refine ⟨found, c :: more, longest, ?_⟩
  rw [pass_append, List.append_assoc]
  rfl

/-- From a literal on, a scan finds the longest one. -/
theorem scanSymbols_longest (h : cursor.At (before ++ run) ahead) (mem : (run, token) ∈ symbols) :
    FindsLongest cursor run ahead
      (cursor.scanSymbols (String.ofList before).rawEndPos (some ⟨token, String.ofList run⟩)) := by
  induction ahead generalizing cursor run token with
  | nil =>
    rw [scanSymbols_stop h (stuck_nil run)]
    exact .of_stuck mem (stuck_nil run)
  | cons c ahead ih =>
    by_cases stuck : Stuck run (c :: ahead)
    · rw [scanSymbols_stop h stuck]
      exact .of_stuck mem stuck
    · obtain ⟨next, hnext⟩ := exists_of_not_stuck stuck
      rw [scanSymbols_confirm h hnext]
      exact (ih h.pass_next hnext).of_pass

/-- A scan that starts at a symbol finds the longest literal there, and passes it. -/
theorem scanSymbols_at (h : cursor.At before (c :: after)) (hs : isSymbol c = true) :
    cursor.scanSymbols cursor.offset none =
      (⟨(ofSymbols (c :: after)).1, String.ofList (ofSymbols (c :: after)).2⟩,
        cursor.pass (ofSymbols (c :: after)).2) := by
  obtain ⟨token, mem⟩ := exists_mem_symbols_singleton hs
  have hbegin : cursor.At (before ++ []) (c :: after) := by simpa using h
  have hpass : (cursor.pass [c]).At (before ++ [c]) after := h.pass
  obtain ⟨found, more, longest, hscan⟩ := scanSymbols_longest hpass mem
  have hfound : ofSymbols (c :: after) = (found, [c] ++ more) := ofSymbols_of_longest longest
  rw [h.offset, scanSymbols_confirm hbegin mem, List.nil_append, hscan, pass_append, hfound]

/-! ## 4. A lexeme -/

theorem scanWord_at (h : cursor.At before after) :
    cursor.scanWord =
      (⟨ofWord (after.takeWhile isWordChar), String.ofList (after.takeWhile isWordChar)⟩,
        cursor.pass (after.takeWhile isWordChar)) := by
  have hkind := ofLiteral?_word fun c (hc : c ∈ after.takeWhile isWordChar) =>
    List.mem_takeWhile_imp hc
  simp only [scanWord, h.rest_eq, hkind]

/-- A lexeme is read from the characters ahead, and passed with the blanks before it. -/
theorem lex_eq (h : cursor.At before after) :
    cursor.lex = ((Lexeme.next after).1,
      cursor.pass (after.takeWhile isBlank ++ (Lexeme.next after).1.literal.toList)) := by
  have hskip : cursor.skipBlanks = cursor.pass (after.takeWhile isBlank) := by
    rw [skipBlanks, h.rest_eq]
  have hbody : (cursor.pass (after.takeWhile isBlank)).At (before ++ after.takeWhile isBlank)
      (after.dropWhile isBlank) := by
    rw [← List.takeWhile_append_dropWhile (p := isBlank) (l := after)] at h
    exact h.pass
  rw [← pass_append, lex, hskip]
  cases hd : after.dropWhile isBlank with
  | nil =>
    rw [hd] at hbody
    simp [read_at_end hbody, Lexeme.next, hd, Lexeme.head, Lexeme.endOfText, pass_nil]
  | cons c rest =>
    rw [hd] at hbody
    simp only [read_at hbody, unread_pass hbody]
    by_cases hs : isSymbol c = true
    · simp [hs, scanSymbols_at hbody hs, Lexeme.next, hd, Lexeme.head]
    · simp [hs, scanWord_at hbody, Lexeme.next, hd, Lexeme.head]

/-- Reading a lexeme leads past the blanks before it and its literal, and no further. -/
theorem lex_at (h : cursor.At before after) :
    cursor.lex.1 = (Lexeme.next after).1 ∧
      cursor.lex.2.At
        (before ++ (after.takeWhile isBlank ++ (Lexeme.next after).1.literal.toList))
        (Lexeme.next after).2 := by
  rw [lex_eq h]
  refine ⟨rfl, ?_⟩
  rw [← Lexeme.next_split after, ← List.append_assoc] at h
  exact h.pass

/-! ## 5. Reading on -/

/-- A cursor that reads on finds the lexemes of the text ahead of it. -/
theorem run_lex (h : cursor.At before after) :
    (cursor.run (List.replicate (Lexeme.ofText after).length .lex)).map Prod.fst =
      (Lexeme.ofText after).map .lexeme := by
  induction after using Lexeme.text_induction generalizing cursor before with
  | blanks blanks hb =>
    have hend : cursor.lex.1 = Lexeme.endOfText := (lex_at h).1.trans (Lexeme.next_blanks hb)
    simp [Lexeme.ofText_blanks hb, run, move, hend]
  | lexeme blanks literal token rest hb hl he ih =>
    obtain ⟨hfirst, hat⟩ := lex_at h
    rw [Lexeme.next_lexeme hb hl he] at hfirst hat
    rw [Lexeme.ofText_lexeme hb hl he, List.length_cons, List.replicate_succ, run, List.map_cons,
      List.map_cons, move, hfirst]
    exact congrArg _ (ih hat)

end Cursor

end LabelSelector
