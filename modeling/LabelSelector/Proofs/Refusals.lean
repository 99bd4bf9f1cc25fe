/-
LabelSelector.Proofs.Refusals — the lexeme that a fault names is the first that cannot stand.

A verdict that names a lexeme divides the lexemes in three: what comes before the named lexeme can
be completed to a selection, and the named lexeme makes the same fault whatever comes after it
(`Refused`, `Verdict.exists_refused`). The text can be cut in the same places (`exists_cut`), and a
blank keeps what is added apart from what was there (`body_space`).
-/
import LabelSelector.Proofs.Language

namespace LabelSelector

/-- What is wrong, without the mention that it is wrong with a requirement. -/
def Fault.innermost : Fault → Fault
  | .inRequirement cause => cause.innermost
  | fault => fault

namespace Requirement

open Lexeme Grammar

/-! ## 1. Refused lexemes -/

/-- Some lexemes that a text can complete to a selection, and one that makes a fault after them,
whatever comes next. -/
structure Refused (pre : List Lexeme) (found : Lexeme) (fault : Fault) : Prop where
  completable : ∃ ending requirements, Selection (pre ++ body ending) requirements
  decides : ∀ post, Verdict (pre ++ found :: post) (.error fault)

variable {front pre lexemes : List Lexeme} {found : Lexeme} {before : List Requirement}

theorem Refused.of_start (hb : ¬ found.Begins) (he : found.token ≠ .endOfText) :
    Refused [] found (.unexpected found.literal Expected.start) where
  completable := ⟨[], [], .inl ⟨by simp, rfl⟩⟩
  decides := fun _ => .start hb he

theorem Refused.of_halt {fault : Fault} (heads : Heads front before) (halt : Halt pre found fault)
    (hs : Sound pre) : Refused (front ++ pre) found fault where
  completable := by
    obtain ⟨ending, requirements, listed⟩ := halt.completable hs
    refine ⟨ending, before ++ requirements, .inr ?_⟩
    rw [List.append_assoc]
    exact heads.listed listed
  decides := by
    intro post
    rw [List.append_assoc]
    exact .halted heads halt

/-- The fault of what halts names the lexeme it halts at. -/
theorem Grammar.Halt.innermost {fault : Fault} (h : Halt pre found fault) :
    ∃ expected, fault.innermost = .unexpected found.literal expected := by
  cases h with
  | requirement _ => exact ⟨_, rfl⟩
  | separator _ _ => exact ⟨_, rfl⟩
  | afterComma _ _ _ => exact ⟨_, rfl⟩

/-- A verdict that names a lexeme refuses a lexeme of that name. -/
theorem exists_refused {fault : Fault} {name expected : String}
    (v : Verdict lexemes (.error fault)) (hf : fault.innermost = .unexpected name expected)
    (hs : Sound lexemes) :
    ∃ pre found post, lexemes = pre ++ found :: post ∧ found.literal = name ∧
      Refused pre found fault := by
  cases v with
  | start hb he =>
    cases hf
    exact ⟨[], _, _, rfl, rfl, .of_start hb he⟩
  | @halted front pre post found _ _ heads halt =>
    obtain ⟨_, hinner⟩ := halt.innermost
    rw [hinner] at hf
    cases hf
    have hpre : Sound pre := hs.mono fun lexeme h => by simp [h]
    exact ⟨front ++ pre, found, post, by simp, rfl, .of_halt heads halt hpre⟩
  | badBound _ _ => cases hf

/-! ## 2. Texts -/

theorem Refused.completes {fault : Fault} {text : List Char} (h : Refused pre found fault)
    (hbody : body text = pre) :
    ∃ more requirements, parse (String.ofList text ++ " " ++ more) = .ok requirements := by
  obtain ⟨ending, requirements, selection⟩ := h.completable
  have htext : (String.ofList text ++ " " ++ String.ofList ending).toList =
      text ++ ' ' :: ending := by
    simp
  refine ⟨String.ofList ending, requirements, parse_of_selection ?_⟩
  rw [htext, body_space, hbody]
  exact selection

theorem Refused.parse_error {fault : Fault} {text : List Char} (h : Refused pre found fault)
    (hbody : body text = pre ++ [found]) (more : String) :
    parse (String.ofList text ++ " " ++ more) = .error fault := by
  have htext : (String.ofList text ++ " " ++ more).toList = text ++ ' ' :: more.toList := by
    simp
  apply parse_of_verdict
  rw [ofText_eq, htext, body_space, hbody, List.append_assoc, List.append_assoc]
  exact h.decides _

/-- A fault that names a lexeme names the first that the text cannot go on with. If it is the end,
the text can be completed. If not, what comes before the lexeme can be, and with the lexeme every
text makes the same fault. -/
theorem parse_refused {text found expected : String} {fault : Fault}
    (h : parse text = .error fault) (hf : fault.innermost = .unexpected found expected) :
    (found = "" → ∃ more requirements, parse (text ++ " " ++ more) = .ok requirements) ∧
    (found ≠ "" → ∃ before after, text = before ++ found ++ after ∧
      (∃ token, body text.toList = body before.toList ++ ⟨token, found⟩ :: body after.toList) ∧
      (∃ more requirements, parse (before ++ " " ++ more) = .ok requirements) ∧
      ∀ more, parse (before ++ found ++ " " ++ more) = .error fault) := by
  have v := verdict_parse text
  rw [h] at v
  obtain ⟨pre, lexeme, post, hlexemes, rfl, refused⟩ := exists_refused v hf (sound_ofText _)
  rcases ofText_cases hlexemes with ⟨hbody, rfl⟩ | ⟨rest, hbody⟩
  · -- The refused lexeme is the end of the text, and that alone has no literal.
    refine ⟨fun _ => ?_, fun hne => absurd rfl hne⟩
    have hcompletes := refused.completes hbody
    rwa [String.ofList_toList] at hcompletes
  · have hmem : lexeme ∈ body text.toList := by
      rw [hbody]
      simp
    have hne : lexeme.literal ≠ "" := by
      intro hempty
      apply (literal_of_mem_body hmem).ne_nil
      rw [hempty]
      rfl
    refine ⟨fun hempty => absurd hempty hne, fun _ => ?_⟩
    obtain ⟨before, after, htext, hbefore, hupto, hafter⟩ := exists_cut hbody
    refine ⟨String.ofList before, String.ofList after, ?_, ⟨lexeme.token, ?_⟩,
      refused.completes hbefore, ?_⟩
    · rw [← String.toList_inj, htext]
      simp
    · rw [hbody]
      simp [hbefore, hafter]
    · intro more
      have hfails := refused.parse_error hupto more
      rw [String.ofList_append, String.ofList_toList] at hfails
      exact hfails

/-- A second word in a slot is refused, and a list that is not closed can be. -/
theorem parse_refused_slot :
    parse "x in (a b)" = .error (.inRequirement (.unexpected "b" Expected.slotEnd)) ∧
      (∃ before after, "x in (a b)" = before ++ "b" ++ after ∧
        (∃ token, body "x in (a b)".toList =
          body before.toList ++ ⟨token, "b"⟩ :: body after.toList) ∧
        (∃ more requirements, parse (before ++ " " ++ more) = .ok requirements) ∧
        ∀ more, parse (before ++ "b" ++ " " ++ more) =
          .error (.inRequirement (.unexpected "b" Expected.slotEnd))) ∧
      parse "x in (a" = .error (.inRequirement (.unexpected "" Expected.slotEnd)) ∧
      ∃ more requirements, parse ("x in (a" ++ " " ++ more) = .ok requirements := by
  have hword : parse "x in (a b)" =
      .error (.inRequirement (.unexpected "b" Expected.slotEnd)) := by
    decide +kernel
  have hend : parse "x in (a" = .error (.inRequirement (.unexpected "" Expected.slotEnd)) := by
    decide +kernel
  refine ⟨hword, (parse_refused hword rfl).2 (by decide), hend, ?_⟩
  exact (parse_refused hend rfl).1 rfl

end Requirement

end LabelSelector
