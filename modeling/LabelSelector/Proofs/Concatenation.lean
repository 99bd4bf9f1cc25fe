/-
LabelSelector.Proofs.Concatenation — two texts with a comma between them.

A comma belongs to no longer literal, so the lexemes of the two texts stay what they are
(`body_comma`). If the first text lists requirements, the comma makes them heads (`Listed.heads`),
and heads have no part in what is found or refused after them. Only one thing changes for the
second text: it may no longer be without requirements (`afterComma`).
-/
import LabelSelector.Proofs.CanonicalForm
import LabelSelector.Proofs.Language

namespace LabelSelector

namespace Requirement

open Lexeme Grammar

/-! ## 1. Requirements -/

/-- What some requirements and a comma make of what the text after the comma comes to by itself. -/
def afterComma (requirements : List Requirement) :
    Except Fault (List Requirement) → Except Fault (List Requirement)
  | .ok [] => .error (.unexpected "" Expected.afterComma)
  | .ok more => .ok (requirements ++ more)
  | .error (.unexpected found expected) =>
    if expected = Expected.start then .error (.unexpected found Expected.afterComma)
    else .error (.unexpected found expected)
  | .error fault => .error fault

variable {front pre lexemes post : List Lexeme} {found comma : Lexeme}
  {requirements more : List Requirement}

theorem afterComma_ok (hne : more ≠ []) :
    afterComma requirements (.ok more) = .ok (requirements ++ more) := by
  obtain ⟨first, rest, rfl⟩ := List.exists_cons_of_ne_nil hne
  rfl

theorem afterComma_start (found : String) :
    afterComma requirements (.error (.unexpected found Expected.start)) =
      .error (.unexpected found Expected.afterComma) := by
  unfold afterComma
  exact if_pos rfl

/-- No fault but that of a wrong first lexeme depends on what comes before a comma. -/
theorem afterComma_halt {fault : Fault} (h : Halt pre found fault) :
    afterComma requirements (.error fault) = .error fault := by
  have hseparator : Expected.separator ≠ Expected.start := by decide
  have hafter : Expected.afterComma ≠ Expected.start := by decide
  unfold afterComma
  cases h with
  | requirement _ => rfl
  | separator _ _ => exact if_neg hseparator
  | afterComma _ _ _ => exact if_neg hafter

/-- Where a requirement begins after the comma, the requirements before it are only added. -/
theorem afterComma_eq_map {result : Except Fault (List Requirement)} (v : Verdict lexemes result)
    (hb : Starts lexemes) :
    afterComma requirements result = result.map fun more => requirements ++ more := by
  cases v with
  | nothing he => simp [Starts, Begins, IsWord, he] at hb
  | start hnot _ => simp [Starts, hnot] at hb
  | listed listed _ => exact afterComma_ok listed.ne_nil
  | halted _ halt => exact afterComma_halt halt
  | badBound _ _ => rfl

/-- Requirements and a comma do not go with a lexeme that begins no requirement. -/
theorem verdict_comma_refused (h : Listed front requirements) (hc : comma.IsComma)
    (hf : ¬ found.Begins) (post : List Lexeme) :
    Verdict (front ++ comma :: found :: post)
      (.error (.unexpected found.literal Expected.afterComma)) := by
  obtain ⟨front, before, last, requirement, heads, spells, rfl, _⟩ := h.exists_heads
  have v : Verdict (front ++ ((last ++ [comma]) ++ found :: post)) _ :=
    .halted heads (.afterComma spells hc hf)
  simpa using v

/-- A verdict on some lexemes decides the one on requirements, a comma and these lexemes. -/
theorem verdict_comma {result : Except Fault (List Requirement)} (h : Listed front requirements)
    (hc : comma.IsComma)
    (hend : ∀ lexeme ∈ lexemes, lexeme.token = .endOfText → lexeme.literal = "")
    (v : Verdict lexemes result) :
    Verdict (front ++ comma :: lexemes) (afterComma requirements result) := by
  -- Only where nothing begins after the comma does it make a difference.
  by_cases hb : Starts lexemes
  · rw [afterComma_eq_map v hb]
    simpa using v.after_heads (h.heads hc) hb
  · cases v with
    | @nothing last post he =>
      have hnot : ¬ last.Begins := fun hb => hb.not_stops (.inr he)
      have v := verdict_comma_refused h hc hnot post
      rw [hend last List.mem_cons_self he] at v
      exact v
    | @start found post hnot _ =>
      rw [afterComma_start]
      exact verdict_comma_refused h hc hnot post
    | listed listed _ => exact absurd (listed.starts.append _) hb
    | halted heads halt => exact absurd (heads.starts (halt.starts.append _)) hb
    | badBound heads bad => exact absurd (heads.starts (bad.starts.append _)) hb

theorem ofText_comma (before after : List Char) :
    ofText (before ++ ',' :: after) = body before ++ ⟨.comma, ","⟩ :: ofText after := by
  rw [ofText_eq, body_comma, ofText_eq after, List.append_assoc, List.cons_append]

theorem literal_of_end {text : List Char} {lexeme : Lexeme} (h : lexeme ∈ ofText text)
    (he : lexeme.token = .endOfText) : lexeme.literal = "" := by
  rcases mem_ofText.1 h with hmem | rfl
  · exact absurd he (literal_of_mem_body hmem).known.1
  · rfl

theorem parse_comma {first second : String} (h : parse first = .ok requirements)
    (hne : requirements ≠ []) :
    parse (first ++ "," ++ second) = afterComma requirements (parse second) := by
  have hlisted : Listed (body first.toList) requirements := by
    rcases selection_of_parse h with ⟨_, hnil⟩ | listed
    · exact absurd hnil hne
    · exact listed
  have htext : (first ++ "," ++ second).toList = first.toList ++ ',' :: second.toList := by
    rw [String.toList_append, String.toList_append, List.append_assoc]
    rfl
  apply parse_of_verdict
  rw [htext, ofText_comma]
  exact verdict_comma hlisted isComma_comma (fun _ => literal_of_end) (verdict_parse second)

end Requirement

/-! ## 2. Selectors -/

namespace Selector

variable {a : List Requirement}

theorem parse_eq_ok {text : String} {selector : Selector} (h : parse text = .ok selector) :
    ∃ requirements, Requirement.parse text = .ok requirements ∧
      selector = ofRequirements requirements := by
  unfold parse at h
  cases hparse : Requirement.parse text with
  | error fault =>
    rw [hparse] at h
    cases h
  | ok requirements =>
    rw [hparse] at h
    cases h
    exact ⟨requirements, rfl, rfl⟩

theorem parse_of_requirements {text : String} (h : Requirement.parse text = .ok a) :
    parse text = .ok (ofRequirements a) := by
  rw [parse, h]
  rfl

theorem ne_nil_of_requirements (h : (ofRequirements a).requirements ≠ []) : a ≠ [] := by
  rintro rfl
  exact h (Requirement.sort_of_sorted .nil)

end Selector

/-- Behind a text that lists requirements and a comma, another text comes to what it does by
itself, except that it has to list some too. So it is all the same which of two selectors stands
first: both ways they are added up. -/
theorem parse_append_comma {first second : String} {requirements : List Requirement}
    (h : Requirement.parse first = .ok requirements) (hne : requirements ≠ []) :
    Requirement.parse (first ++ "," ++ second) =
        Requirement.afterComma requirements (Requirement.parse second) ∧
      ∀ a b, Selector.parse first = .ok a → Selector.parse second = .ok b →
        b.requirements ≠ [] →
        Selector.parse (first ++ "," ++ second) = .ok (a.add b.requirements) ∧
          Selector.parse (second ++ "," ++ first) = .ok (a.add b.requirements) := by
  refine ⟨Requirement.parse_comma h hne, ?_⟩
  intro a b ha hb hb_ne
  obtain ⟨requirements', hfirst, rfl⟩ := Selector.parse_eq_ok ha
  obtain ⟨more, hsecond, rfl⟩ := Selector.parse_eq_ok hb
  obtain rfl : requirements = requirements' := by
    rw [hfirst] at h
    exact (Except.ok.inj h).symm
  have hmore : more ≠ [] := Selector.ne_nil_of_requirements hb_ne
  have hforth : Requirement.parse (first ++ "," ++ second) = .ok (requirements ++ more) := by
    rw [Requirement.parse_comma h hne, hsecond, Requirement.afterComma_ok hmore]
  have hback : Requirement.parse (second ++ "," ++ first) = .ok (more ++ requirements) := by
    rw [Requirement.parse_comma hsecond hmore, h, Requirement.afterComma_ok hne]
  rw [Selector.ofRequirements_add]
  refine ⟨Selector.parse_of_requirements hforth, ?_⟩
  rw [Selector.parse_of_requirements hback, Selector.ofRequirements_congr List.perm_append_comm]

/-- The value left out before the comma is not looked for behind it. -/
theorem parse_append_comma_blank :
    Requirement.parse "a=" = .ok [⟨"a", .equals, .singleton "", by decide⟩] ∧
      Requirement.parse ("a=" ++ "," ++ "!b") =
        .ok [⟨"a", .equals, .singleton "", by decide⟩, ⟨"b", .absent, .empty, by decide⟩] ∧
      Selector.parse ("a=" ++ "," ++ "!b") = Selector.parse ("!b" ++ "," ++ "a=") := by
  have ha : Requirement.parse "a=" = .ok [⟨"a", .equals, .singleton "", by decide⟩] := by
    decide +kernel
  have hb : Requirement.parse "!b" = .ok [⟨"b", .absent, .empty, by decide⟩] := by
    decide +kernel
  have hne : ∀ requirement : Requirement,
      (Selector.ofRequirements [requirement]).requirements ≠ [] := by
    intro requirement
    rw [Selector.requirements_ofRequirements,
      Requirement.sort_of_sorted (List.pairwise_singleton _ _)]
    simp
  obtain ⟨hparse, hselector⟩ := @parse_append_comma "a=" "!b" _ ha (by simp)
  obtain ⟨hforth, hback⟩ := hselector _ _ (Selector.parse_of_requirements ha)
    (Selector.parse_of_requirements hb) (hne _)
  rw [hb] at hparse
  exact ⟨ha, hparse, hforth.trans hback.symm⟩

end LabelSelector
