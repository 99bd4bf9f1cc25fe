/-
LabelSelector.Proofs.Consumption — the parser ends on every text and never reads past its end.

Past the last lexeme of a tape the end of the text goes on showing, so a loop that took it for
something to go on with would never end, and nothing on the tape would stop it. No reading does:
within a requirement a success leaves the end of the text on the tape, and taking the end is a fault
there (`StopsShort`). Only the round that reads the last requirement takes the end and succeeds, and
with that the parser is done (`requirementRound_goes`, `requirements_goes`).

So the lexemes that a run takes are a beginning of the lexemes of the text, all of them where some
requirements were read. A round that asks for another has taken one lexeme at least, which bounds
the number of rounds by that of the lexemes, and there are no more of those than characters
(`length_body_le`).
-/
import LabelSelector.Proofs.Courses
import LabelSelector.Proofs.Language

namespace LabelSelector

/-! ## 1. The lexemes of a text -/

namespace Lexeme

/-- A text has no more lexemes before its end than it has characters. -/
theorem length_body_le (text : List Char) : (body text).length ≤ text.length := by
  induction text using text_induction with
  | blanks blanks hb => simp [body_blanks hb]
  | lexeme blanks literal token rest hb hl he ih =>
    have hpos : 0 < literal.length := List.length_pos_iff.2 hl.ne_nil
    rw [body_lexeme hb hl he]
    simp only [List.length_cons, List.length_append]
    omega

end Lexeme

namespace Requirement

namespace Parser

open Reading

variable {α : Type} {tape : Tape}

/-! ## 2. One requirement -/

/-- On a tape that ends, a reading takes nothing but lexemes of the tape, and where it succeeds the
end of the text is still there. -/
def StopsShort (reading : Reading α) : Prop :=
  ∀ tape : Tape, tape.Ends → Goes reading tape fun _ after => after.Ends

theorem key_stopsShort : StopsShort key := by
  intro tape ends
  refine .takeWord ends (fun _ ends => ?_) fun he _ => ?_
  · split
    · refine .takeWord ends (fun _ ends => ?_) fun he _ => ?_
      · split
        · exact .pure ends
        · exact .throw _
      · simp only [he]
        exact .throw _
    · split
      · refine .peekWord ?_
        split
        · exact .pure ends
        · exact .pure ends
      · exact .throw _
  · simp only [he]
    exact .throw _

theorem operator_stopsShort : StopsShort operator := by
  intro tape ends
  refine .takeOperator ends (fun _ ends => ?_) fun he _ => ?_
  · split
    · exact .pure ends
    · exact .throw _
  · simp only [he]
    exact .throw _

theorem slotRound_stopsShort (found : ValueSet) : StopsShort (slotRound found) := by
  intro tape ends
  refine .takeWord ends (fun _ ends => ?_) fun he _ => ?_
  · split
    · refine .peekWord ?_
      split
      · exact .pure ends
      · exact .pure ends
      · exact .throw _
    · refine .peekWord ?_
      split
      · exact .pure ends
      · -- The second comma is taken unseen, but it has been in view.
        rename_i hcomma
        refine .takeWord ends (fun _ ends => .pure ends) fun he _ => ?_
        rw [hcomma] at he
        cases he
      · exact .pure ends
    · exact .throw _
  · simp only [he]
    exact .throw _

theorem slots_stopsShort : StopsShort slots := by
  intro tape ends
  refine .loop (fun _ tape => tape.Ends) (fun found tape ends => ?_) ends
  refine (slotRound_stopsShort found tape ends).mono fun decision after ends => ?_
  cases decision with
  | again found => exact ends
  | done found => exact ends

theorem valueList_stopsShort : StopsShort valueList := by
  intro tape ends
  refine .takeWord ends (fun _ ends => ?_) fun he _ => ?_
  · have list : Goes (do
        let found ← slots
        let last ← takeWord
        if last.token = .closeParen then return found else reject last Expected.closeParen)
        tape.advance fun _ after => after.Ends := by
      refine .bind (slots_stopsShort _ ends) fun found after ends => ?_
      refine .takeWord ends (fun _ ends => ?_) fun he _ => ?_
      · split
        · exact .pure ends
        · exact .throw _
      · simp only [he]
        exact .throw _
    split
    · refine .peekWord ?_
      split
      · exact list
      · exact list
      · rename_i hclose
        refine .takeWord ends (fun _ ends => .pure ends) fun he _ => ?_
        rw [hclose] at he
        cases he
      · exact .throw _
    · exact .throw _
  · simp only [he]
    exact .throw _

theorem singleValue_stopsShort : StopsShort singleValue := by
  intro tape ends
  refine .peekWord ?_
  split
  · exact .pure ends
  · refine .takeWord ends (fun _ ends => ?_) fun he _ => ?_
    · split
      · exact .pure ends
      · exact .throw _
    · simp only [he]
      exact .throw _

theorem valuesOf_stopsShort (operator : Operator) : StopsShort (valuesOf operator) := by
  cases operator
  case isIn => exact valueList_stopsShort
  case notIn => exact valueList_stopsShort
  case present => exact fun _ _ => .throw _
  case absent => exact fun _ _ => .throw _
  all_goals exact singleValue_stopsShort

/-- A requirement that is read leaves the end of the text. -/
theorem requirement_stopsShort : StopsShort requirement := by
  intro tape ends
  refine .bind (key_stopsShort tape ends) fun ⟨key, decided⟩ after ends => ?_
  cases decided with
  | some operator => exact .ofResult fun _ => ends
  | none =>
    refine .bind (operator_stopsShort after ends) fun operator after ends => ?_
    refine .bind (valuesOf_stopsShort operator after ends) fun values after ends => ?_
    exact .ofResult fun _ => ends

/-! ## 3. Requirements between commas -/

/-- After a requirement, another round is asked for with the start of another in view, and the
rounds are done with the end of the text taken. -/
theorem afterRequirement_goes (found : List Requirement) (read : Requirement) (ends : tape.Ends) :
    Goes (afterRequirement found read) tape fun decision after => decision.Meets
      (fun _ => after.Ends ∧ startsRequirement after.view.asWord = true)
      (fun _ => after.rest = []) := by
  refine .takeWord ends (fun hne ends => ?_) fun he hnil => ?_
  · split
    · rename_i he
      exact absurd he hne
    · refine .peekWord ?_
      split
      · rename_i hstart
        exact .pure ⟨ends, hstart⟩
      · exact .throw _
    · exact .throw _
  · simp only [he]
    exact .pure hnil

/-- A round asks for another with the start of a requirement in view. It is done when it has taken
the end of the text, after a requirement, or when it has found no start of one. -/
theorem requirementRound_goes (found : List Requirement) (tape : Tape) (ends : tape.Ends) :
    Goes (requirementRound found) tape fun decision after => decision.Meets
      (fun _ => after.Ends ∧ startsRequirement after.view.asWord = true)
      (fun result => after.rest = [] ∨
        startsRequirement tape.view.asWord = false ∧ result = found.reverse) := by
  refine .peekWord ?_
  split
  · have hread := (requirement_stopsShort tape ends).adaptExcept Fault.inRequirement
    refine hread.bind fun read after ends => ?_
    refine (afterRequirement_goes found read ends).mono fun decision after hpost => ?_
    cases decision with
    | again found' => exact hpost
    | done result => exact .inl hpost
  · rename_i hstart
    split
    · exact .pure (.inr ⟨by simpa using hstart, rfl⟩)
    · exact .throw _

/-- Requirements that are read are read to the end of the text, unless there are none. -/
theorem requirements_goes (ends : tape.Ends) :
    Goes requirements tape fun result after => result = [] ∨ after.rest = [] := by
  -- Once a requirement was found, a round starts with another in view and is done at the end only.
  refine .loop (fun found tape => tape.Ends ∧
    (found = [] ∨ startsRequirement tape.view.asWord = true)) ?_ ⟨ends, .inl rfl⟩
  rintro found tape ⟨ends, hfound⟩
  refine (requirementRound_goes found tape ends).mono fun decision after hpost => ?_
  cases decision with
  | again found' => exact ⟨hpost.1, .inr hpost.2⟩
  | done result =>
    rcases hpost with hnil | ⟨hstart, rfl⟩
    · exact .inr hnil
    · rcases hfound with rfl | hstart'
      · exact .inl rfl
      · rw [hstart] at hstart'
        cases hstart'

theorem slotRound_advances : Advances slotRound :=
  slotRound_productive.advances slotRound_stopsShort fun _ _ _ _ ends => ends

theorem requirementRound_advances : Advances requirementRound :=
  requirementRound_productive.advances requirementRound_goes fun _ _ _ _ hpost => hpost.1

end Parser

/-! ## 4. Texts -/

open Lexeme Reading

variable {text : String}

theorem ends_ofText (text : List Char) : (Tape.ofList (ofText text)).Ends := by
  refine ⟨body text, ofText_eq text, fun word hmem => ?_⟩
  exact (literal_of_mem_body hmem).known.1

/-- What a text is parsed to is what its lexemes are read as. -/
theorem requirements_of_parse {found : List Requirement} (h : parse text = .ok found) :
    ∃ after, Parser.requirements (.ofList (ofText text.toList)) = .ok found after := by
  have hparse : parse text = outcome (Parser.requirements (.ofList (ofText text.toList))) := by
    rw [parse, scan_eq]
    rfl
  rw [hparse] at h
  cases hrun : Parser.requirements (.ofList (ofText text.toList)) with
  | ok result after =>
    rw [hrun] at h
    cases h
    exact ⟨after, rfl⟩
  | error fault after =>
    rw [hrun] at h
    cases h

/-- Among the lexemes of a text nothing stands after its end. -/
theorem eq_nil_of_end {text : List Char} {before post : List Lexeme} {last : Lexeme}
    (h : ofText text = before ++ last :: post) (he : last.token = .endOfText) : post = [] := by
  have hbody := eq_body_of_end h he
  rw [ofText_eq, hbody] at h
  exact (List.cons.inj (List.append_cancel_left h)).2.symm

/-- A run on the lexemes of a text takes some of them from the front, all of them if it finds any
requirements. -/
theorem exists_course (text : String) :
    ∃ taken rest, ofText text.toList = taken ++ rest ∧
      Course Parser.requirements (.ofList (ofText text.toList)) taken ∧
      left (Parser.requirements (.ofList (ofText text.toList))) = ⟨taken.length, rest⟩ ∧
      ∀ found, parse text = .ok found → found ≠ [] → rest = [] := by
  obtain ⟨taken, course, hrest, hpost⟩ := Parser.requirements_goes (ends_ofText text.toList)
  have hcount : (left (Parser.requirements (.ofList (ofText text.toList)))).taken =
      taken.length := course.taken_left.trans (Nat.zero_add _)
  refine ⟨taken, _, hrest, course, by rw [← hcount], fun found hparse hne => ?_⟩
  obtain ⟨after, hrun⟩ := requirements_of_parse hparse
  have hnil : after.rest = [] := (hpost found after hrun).resolve_left hne
  rw [hrun]
  exact hnil

/-- A text is scanned to its end, which is found once, after no more lexemes than characters. A run
of the parser, be it a success or not, takes a beginning of these lexemes, one after another: it
stands within them all the time, takes the end of the text once at most, and takes nothing after it.
Where it finds requirements it has taken all of the lexemes. Its loops come to an end, since a round
that asks for another has taken one lexeme more at least and leaves the end of the text to come. -/
theorem run_stays_within_text (text : String) :
    ∃ words, scan text = .ok (words ++ [endOfText]) ∧
      (∀ word ∈ words, word.token ≠ .endOfText) ∧ words.length ≤ text.length ∧
      (∃ taken rest, words ++ [endOfText] = taken ++ rest ∧
        (∀ other, Course Parser.requirements (.ofList (words ++ [endOfText])) other ↔
          other = taken) ∧
        left (Parser.requirements (.ofList (words ++ [endOfText]))) = ⟨taken.length, rest⟩ ∧
        taken.length ≤ words.length + 1 ∧
        (∀ before last after, taken = before ++ last :: after → last.token = .endOfText →
          after = []) ∧
        ∀ found, parse text = .ok found → found ≠ [] → taken = words ++ [endOfText]) ∧
      Advances Parser.requirementRound ∧ Advances Parser.slotRound ∧
      (∃ n, n ≤ words.length + 2 ∧
        Finishes Parser.requirementRound [] (.ofList (words ++ [endOfText])) n) ∧
      ∀ found tape, ∃ n, n ≤ tape.rest.length + 1 ∧ Finishes Parser.slotRound found tape n := by
  obtain ⟨taken, rest, heq, course, hleft, hall⟩ := exists_course text
  have hlength : (ofText text.toList).length = (body text.toList).length + 1 := by
    rw [ofText_eq, List.length_append, List.length_singleton]
  refine ⟨body text.toList, ?_⟩
  rw [← ofText_eq]
  refine ⟨scan_eq text, fun word hmem => (literal_of_mem_body hmem).known.1, ?_,
    ⟨taken, rest, heq, fun other => ⟨fun h => h.unique course, fun h => h ▸ course⟩, hleft, ?_, ?_,
      ?_⟩,
    Parser.requirementRound_advances, Parser.slotRound_advances, ?_,
    Parser.slotRound_productive.finishes⟩
  · rw [← String.length_toList]
    exact length_body_le text.toList
  · rw [← hlength, heq, List.length_append]
    exact Nat.le_add_right _ _
  · intro before last after htaken he
    rw [htaken, List.append_assoc, List.cons_append] at heq
    exact (List.append_eq_nil_iff.1 (eq_nil_of_end heq he)).1
  · intro found hparse hne
    rw [heq, hall found hparse hne, List.append_nil]
  · have hfinishes := Parser.requirementRound_productive.finishes [] (.ofList (ofText text.toList))
    rwa [Tape.rest_ofList, hlength] at hfinishes

-- A list that is not closed fails at the end of the text, which has been taken then, and only once.
example : left (Parser.requirements (.ofList (ofText "x in (a,,".toList))) = ⟨7, []⟩ := by
  decide +kernel

end Requirement

end LabelSelector
