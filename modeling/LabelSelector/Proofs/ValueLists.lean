/-
LabelSelector.Proofs.ValueLists — which lists of values are read slot by slot.

Texts of values joined by commas are words and commas in which no two words are adjacent
(`slotRow_slotsOf`), so what a list comes to depends on the commas at its end alone. One comma
before the closing parenthesis leaves an empty slot behind it. Two commas are taken in one round,
and the round that follows does not take the parenthesis. A list that ends in commas, an even
number of them, is therefore refused, and every other list is read with all of its slots
(`parse_membershipText`).
-/
import LabelSelector.Proofs.RoundTrip
import LabelSelector.Proofs.Seams
import Mathlib.Data.List.Induction

namespace LabelSelector

namespace Lexeme

/-- Only the character `,` is a comma. -/
theorem Literal.eq_comma {literal : List Char} {token : Token} (hl : Literal literal token)
    (ht : token = .comma) : literal = [','] := by
  cases hl with
  | word _ _ => rcases ofWord_cases literal with h | h | h <;> simp [h] at ht
  | symbol mem =>
    have table : ∀ entry ∈ Token.symbols, entry.2 = .comma → entry.1 = [','] := by decide
    exact table _ mem ht

end Lexeme

namespace Requirement

open Lexeme Grammar Text

variable {key : String} {operator : Operator} {slots : List String}

/-! ## 1. The commas at the end of a list -/

/-- The number of commas that a text ends in. -/
def finalCommas (text : String) : Nat :=
  (text.toList.reverse.takeWhile fun c => c = ',').length

/-- A text ends in commas, and in an even number of them. -/
def EndsInCommaPairs (text : String) : Prop :=
  finalCommas text ≠ 0 ∧ finalCommas text % 2 = 0

instance (text : String) : Decidable (EndsInCommaPairs text) :=
  inferInstanceAs (Decidable (_ ∧ _))

/-- Without blanks, the commas at the end of a text are those at the end of its lexemes. -/
theorem commasAtEnd_body {text : List Char} (h : ∀ c ∈ text, isBlank c = false) :
    commasAtEnd (body text) = (text.reverse.takeWhile fun c => c = ',').length := by
  induction text using List.reverseRecOn with
  | nil => simp [commasAtEnd]
  | append_singleton front c ih =>
    by_cases hc : c = ','
    · have ih := ih fun other hmem => h other (by simp [hmem])
      rw [hc, body_comma, body_nil]
      simpa [commasAtEnd, isComma_comma] using ih
    · -- The last lexeme reaches to the end, so it ends in a character other than a comma.
      obtain ⟨lexeme, hlast, hsuffix⟩ : ∃ lexeme ∈ (body (front ++ [c])).getLast?,
          lexeme.literal.toList <:+ front ++ [c] := exists_last (by simp) (h c (by simp))
      have hnot : ¬ lexeme.IsComma := by
        intro hcomma
        rw [(literal_of_mem_body (List.mem_of_getLast? hlast)).eq_comma hcomma] at hsuffix
        obtain ⟨before, heq⟩ := hsuffix
        exact hc (by simpa using (List.append_inj' heq rfl).2.symm)
      obtain ⟨before, heq⟩ := List.getLast?_eq_some_iff.1 hlast
      rw [heq]
      simp [commasAtEnd, hnot, hc]

theorem isBlank_of_mem_intercalate (hs : ∀ slot ∈ slots, isIdentifier slot = true) :
    ∀ c ∈ (",".intercalate slots).toList, isBlank c = false := by
  induction slots with
  | nil => simp
  | cons slot rest ih =>
    have ih := ih fun other hmem => hs other (List.mem_cons_of_mem _ hmem)
    have hslot : ∀ c ∈ slot.toList, isBlank c = false := fun c hc =>
      isBlank_eq_false_of_isWordChar (isIdentifier_iff.1 (hs slot List.mem_cons_self) c hc)
    cases rest with
    | nil => simpa using hslot
    | cons next rest =>
      have hcomma : isBlank ',' = false := by decide
      intro c hc
      rw [String.intercalate_cons_cons, String.toList_append, String.toList_append,
        List.mem_append, List.mem_append] at hc
      rcases hc with (hc | hc) | hc
      · exact hslot c hc
      · obtain rfl : c = ',' := by simpa using hc
        exact hcomma
      · exact ih c hc

/-- Slots joined by commas are a list that can be closed, unless the text ends in pairs of
commas. -/
theorem ending_slotsOf (hs : ∀ slot ∈ slots, isIdentifier slot = true) :
    (commasAtEnd (slotsOf slots) = 0 ∨ commasAtEnd (slotsOf slots) % 2 = 1) ↔
      ¬ EndsInCommaPairs (",".intercalate slots) := by
  rw [← body_intercalate hs, commasAtEnd_body (isBlank_of_mem_intercalate hs), EndsInCommaPairs,
    finalCommas]
  omega

/-! ## 2. Requirements with a list of values -/

/-- A requirement with a list of values as it is written. -/
def membershipText (key : String) (operator : Operator) (slots : List String) : String :=
  key ++ " " ++ operator.sign ++ " " ++ parenthesized slots

theorem exists_membershipWord (ho : operator = .isIn ∨ operator = .notIn) :
    ∃ token, MembershipWord token operator := by
  rcases ho with rfl | rfl
  · exact ⟨_, .isIn⟩
  · exact ⟨_, .notIn⟩

/-- A list of slots is read with all of them. -/
theorem parse_of_slotList {token : Token} (hk : key ≠ "" ∧ isIdentifier key = true)
    (ho : MembershipWord token operator) (hs : ∀ slot ∈ slots, isIdentifier slot = true)
    (hne : slots ≠ []) (hlist : SlotList (slotsOf slots)) :
    ∃ requirement, parse (membershipText key operator slots) = .ok [requirement] ∧
      requirement.key = key ∧ requirement.operator = operator ∧
      requirement.values = .ofList slots := by
  have shape := shape_membership hk ho hs hlist hne
  obtain ⟨requirement, rfl, rfl, hvalues⟩ := shape.exists_requirement (sound_body _)
  rw [← hvalues] at shape
  exact ⟨requirement, parse_of_selection (.inr (.single shape)), rfl, rfl, hvalues⟩

/-- Slots that the closing parenthesis stops are refused at it. -/
theorem parse_of_slotRefusal {token : Token} {expected : String}
    (hk : key ≠ "" ∧ isIdentifier key = true) (ho : MembershipWord token operator)
    (hs : ∀ slot ∈ slots, isIdentifier slot = true)
    (refusal : SlotRefusal (slotsOf slots) ⟨.closeParen, ")"⟩ expected) :
    parse (membershipText key operator slots) =
      .error (.inRequirement (.unexpected ")" expected)) := by
  obtain ⟨hsign, hword⟩ := membershipWord_sign ho
  have hopen : (⟨.openParen, "("⟩ : Lexeme).token = .openParen := rfl
  have halt := Halt.requirement (.slots (isWord_wordLexeme key) hword hopen refusal)
  have verdict := @Verdict.halted _ _ [endOfText] _ _ _ .nil halt
  apply parse_of_verdict
  rw [membershipText, ofText_eq, body_membership hk hsign hs]
  simpa using verdict

/-- A list of slots, each a word or empty, is read with all of its slots, an empty one being the
empty value, unless it ends in pairs of commas. Such a list is refused at its closing
parenthesis. -/
theorem parse_membershipText (hk : key ≠ "" ∧ isIdentifier key = true)
    (ho : operator = .isIn ∨ operator = .notIn) (hs : ∀ slot ∈ slots, isIdentifier slot = true)
    (hne : slots ≠ []) :
    (¬ EndsInCommaPairs (",".intercalate slots) →
        ∃ requirement, parse (membershipText key operator slots) = .ok [requirement] ∧
          requirement.key = key ∧ requirement.operator = operator ∧
          ∀ value, value ∈ requirement.values ↔ value ∈ slots) ∧
      (EndsInCommaPairs (",".intercalate slots) →
        parse (membershipText key operator slots) =
          .error (.inRequirement (.unexpected ")" Expected.slot))) := by
  obtain ⟨token, ho⟩ := exists_membershipWord ho
  have row := slotRow_slotsOf slots
  constructor
  · intro hend
    obtain ⟨requirement, hparse, hkey, hoperator, hvalues⟩ :=
      parse_of_slotList hk ho hs hne (row.slotList ((ending_slotsOf hs).2 hend))
    refine ⟨requirement, hparse, hkey, hoperator, fun value => ?_⟩
    rw [hvalues, ValueSet.mem_ofList]
  · intro hend
    have hnot := mt (ending_slotsOf hs).1 (not_not_intro hend)
    have hslots : slotsOf slots ≠ [] := by
      intro hnil
      rw [hnil] at hnot
      exact hnot (.inl rfl)
    have hclose : (⟨.closeParen, ")"⟩ : Lexeme).token = .closeParen := rfl
    rcases row.run_or_refusal hclose hslots with run | refusal
    · exact absurd run.ending hnot
    · exact parse_of_slotRefusal hk ho hs refusal

/-- Commas at the start, in the middle and at the end, and the pair at the end that is refused. -/
theorem parse_membershipText_commas :
    (∃ requirement, parse (membershipText "k" .notIn ["", "a", "", "", "b", ""]) =
        .ok [requirement] ∧ requirement.key = "k" ∧ requirement.operator = .notIn ∧
        ∀ value, value ∈ requirement.values ↔ value ∈ ["", "a", "", "", "b", ""]) ∧
      parse (membershipText "k" .isIn ["a", "", ""]) =
        .error (.inRequirement (.unexpected ")" Expected.slot)) := by
  have hkey : "k" ≠ "" ∧ isIdentifier "k" = true := by decide
  refine ⟨(parse_membershipText hkey (.inr rfl) ?_ (by simp)).1 ?_,
    (parse_membershipText hkey (.inl rfl) ?_ (by simp)).2 ?_⟩
  · decide
  · decide
  · decide
  · decide

/-- Not every list of slots is read with all of them. -/
theorem not_forall_parse_membershipText :
    ¬ ∀ (key : String) (operator : Operator) (slots : List String),
      key ≠ "" ∧ isIdentifier key = true → operator = .isIn ∨ operator = .notIn →
      (∀ slot ∈ slots, isIdentifier slot = true) → slots ≠ [] →
      ∃ requirement, parse (membershipText key operator slots) = .ok [requirement] ∧
        requirement.key = key ∧ requirement.operator = operator ∧
        ∀ value, value ∈ requirement.values ↔ value ∈ slots := by
  intro h
  obtain ⟨requirement, hparse, _⟩ := h "k" .isIn ["a", "", ""] (by decide) (by decide) (by decide)
    (by decide)
  have htext : membershipText "k" .isIn ["a", "", ""] = "k in (a,,)" := by decide +kernel
  have hfault : parse "k in (a,,)" = .error (.inRequirement (.unexpected ")" Expected.slot)) := by
    decide +kernel
  rw [htext, hfault] at hparse
  cases hparse

end Requirement

end LabelSelector
