/-
LabelSelector.Proofs.TextFaults — the ways in which a text can fail.

A requirement can be refused in many ways when it is built by hand. Of these a text meets one only:
a comparison whose bound is no integer. Its words can all be keys and values, a list of values is
never empty and always ends in front of its parenthesis (`slots_ok`), and what stands after a key
is no operator without values (`operator_ok`). What else goes wrong with a text is a lexeme that
cannot stand where it stands, between requirements or within one (`FailsIn`).

That the faults are just these is read off the verdict on the lexemes (`FailsIn.of_verdict`), since
a verdict has one case for each way to go wrong.
-/
import LabelSelector.Proofs.Language

namespace LabelSelector

namespace Reading

/-- What holds of every round that is done holds of the loop that ends in it. -/
theorem loop_ok {α β : Type} {round : α → Reading (Round α β)} {productive : Productive round}
    {state : α} {tape after : Tape} {result : β} (Ended : β → Tape → Prop)
    (h : ∀ state tape result after, round state tape = .ok (.done result) after →
      Ended result after)
    (hloop : loop round productive state tape = .ok result after) : Ended result after := by
  -- Rounds that ask for another leave a shorter tape; the induction is on its length.
  induction hn : tape.rest.length using Nat.strongRecOn generalizing state tape with
  | ind n ih =>
    subst hn
    rw [loop_eq] at hloop
    cases hround : round state tape with
    | error fault last =>
      rw [hround] at hloop
      cases hloop
    | ok decision last =>
      rw [hround] at hloop
      cases decision with
      | done found =>
        cases hloop
        exact h state tape result after hround
      | again state' => exact ih _ (productive _ _ _ _ hround) hloop rfl

end Reading

namespace Requirement

/-! ## 1. What is expected where -/

namespace Expected

/-- What can be expected between requirements. -/
def between : List String :=
  [start, afterComma, separator]

/-- What can be expected within a requirement. -/
def within : List String :=
  [word, operator, openParen, firstSlot, slotEnd, slot]

/-- The parenthesis after a list of values is never what is missing. -/
theorem closeParen_not_mem_within : closeParen ∉ within := by
  decide +kernel

end Expected

namespace Grammar

open Lexeme

variable {pre slots : List Lexeme} {found : Lexeme} {expected : String}

theorem SlotRefusal.expected_cases (h : SlotRefusal slots found expected) :
    expected = Expected.slotEnd ∨ expected = Expected.slot := by
  induction h with
  | afterWord _ _ _ => exact .inl rfl
  | afterComma _ _ _ _ => exact .inr rfl
  | afterCommas _ _ _ _ => exact .inr rfl
  | wordComma _ _ _ ih => exact ih
  | commaWord _ _ _ ih => exact ih
  | commas _ _ _ ih => exact ih

theorem Refusal.expected_mem (h : Refusal pre found expected) : expected ∈ Expected.within := by
  unfold Expected.within
  cases h with
  | key _ _ => simp
  | operator _ _ _ => simp
  | value _ _ _ _ => simp
  | openParen _ _ _ => simp
  | firstSlot _ _ _ _ _ => simp
  | slots _ _ _ refusal => rcases refusal.expected_cases with rfl | rfl <;> simp

end Grammar

/-! ## 2. Faults of lexemes -/

open Lexeme Grammar

/-- The bound that the lexeme after a sign comes to: none at the end of the requirement, and else
its literal. -/
inductive Bound : Lexeme → String → Prop
  | blank {next : Lexeme} (hs : next.Stops) : Bound next ""
  | word {next : Lexeme} (hw : next.IsWord) : Bound next next.literal

/-- The ways in which some lexemes can fail to list requirements. -/
inductive FailsIn (lexemes : List Lexeme) : Fault → Prop
  | between {found : Lexeme} {expected : String} (hmem : found ∈ lexemes)
      (he : expected ∈ Expected.between) : FailsIn lexemes (.unexpected found.literal expected)
  | within {found : Lexeme} {expected : String} (hmem : found ∈ lexemes)
      (he : expected ∈ Expected.within) (hc : expected ≠ Expected.closeParen) :
      FailsIn lexemes (.inRequirement (.unexpected found.literal expected))
  | bound {pre post : List Lexeme} {sign next : Lexeme} {value : String}
      (eq : lexemes = pre ++ sign :: next :: post) (hs : sign.token = .greater ∨ sign.token = .less)
      (hb : Bound next value) (hi : Text.int64? value = none) :
      FailsIn lexemes (.inRequirement (.boundNotInteger value))

variable {lexemes front pre post : List Lexeme} {found : Lexeme}

theorem Grammar.ComparisonSign.token_cases {token : Token} {operator : Operator}
    (h : ComparisonSign token operator) : token = .greater ∨ token = .less := by
  cases h with
  | greater => exact .inl rfl
  | less => exact .inr rfl

theorem FailsIn.of_halt {fault : Fault} (h : Halt pre found fault) (hmem : found ∈ lexemes) :
    FailsIn lexemes fault := by
  cases h with
  | requirement refusal =>
    have he := refusal.expected_mem
    refine .within hmem he ?_
    rintro rfl
    exact Expected.closeParen_not_mem_within he
  | separator _ _ => exact .between hmem (by simp [Expected.between])
  | afterComma _ _ _ => exact .between hmem (by simp [Expected.between])

theorem FailsIn.of_badBound {value : String} (h : BadBound pre found value) :
    FailsIn (front ++ (pre ++ found :: post)) (.inRequirement (.boundNotInteger value)) := by
  cases h with
  | @blank key sign _ _ _ hs hf =>
    have hsplit : front ++ ([key, sign] ++ found :: post) =
        (front ++ [key]) ++ sign :: found :: post := by simp
    exact .bound hsplit hs.token_cases (.blank hf) Parser.int64?_blank
  | @word key sign bound _ _ _ hs hv hi =>
    have hsplit : front ++ ([key, sign, bound] ++ found :: post) =
        (front ++ [key]) ++ sign :: bound :: found :: post := by simp
    exact .bound hsplit hs.token_cases (.word hv) hi

/-- A verdict that is a fault is one of these ways. -/
theorem FailsIn.of_verdict {fault : Fault} (v : Verdict lexemes (.error fault)) :
    FailsIn lexemes fault := by
  cases v with
  | start _ _ => exact .between List.mem_cons_self (by simp [Expected.between])
  | halted _ halt => exact .of_halt halt (by simp)
  | badBound _ bad => exact .of_badBound bad

/-! ## 3. What the readings of a requirement never leave -/

namespace Parser

open Reading

variable {tape after : Tape} {values result : ValueSet}

theorem peekWord_view {lexeme : Lexeme} (h : peekWord tape = .ok lexeme after) :
    lexeme = tape.view.asWord ∧ after = tape := by
  simp only [peekWord, EStateM.Result.ok.injEq] at h
  exact ⟨h.1.symm, h.2.symm⟩

/-- A round that ends a list of values does so in front of a parenthesis, and has put a value into
the list. -/
theorem slotRound_done (h : slotRound values tape = .ok (.done result) after) :
    after.view.token = .closeParen ∧ result.isEmpty = false := by
  obtain ⟨lexeme, tape, _, h⟩ := bind_eq_ok.1 h
  cases ht : lexeme.token with
  | identifier =>
    simp only [ht] at h
    obtain ⟨following, last, peeked, h⟩ := bind_eq_ok.1 h
    obtain ⟨rfl, rfl⟩ := peekWord_view peeked
    cases hf : last.view.asWord.token <;> simp only [hf] at h <;> cases h
    exact ⟨asWord_closeParen.1 hf, ValueSet.isEmpty_insert _ _⟩
  | comma =>
    simp only [ht] at h
    obtain ⟨following, last, peeked, h⟩ := bind_eq_ok.1 h
    obtain ⟨rfl, rfl⟩ := peekWord_view peeked
    cases hf : last.view.asWord.token with
    | closeParen =>
      simp only [hf] at h
      cases h
      exact ⟨asWord_closeParen.1 hf, ValueSet.isEmpty_insert _ _⟩
    | comma =>
      simp only [hf] at h
      obtain ⟨_, _, _, h⟩ := bind_eq_ok.1 h
      cases h
    | _ =>
      simp only [hf] at h
      cases h
  | _ =>
    simp only [ht] at h
    cases h

/-- A list of values that is read ends in front of its parenthesis, and is not empty. -/
theorem slots_ok (h : Parser.slots tape = .ok result after) :
    after.view.token = .closeParen ∧ result.isEmpty = false :=
  loop_ok (fun result after => after.view.token = .closeParen ∧ result.isEmpty = false)
    (fun _ _ _ _ => slotRound_done) h

/-- An operator that is read stands between a key and values. -/
theorem operator_ok {operator : Operator} (h : Parser.operator tape = .ok operator after) :
    operator ≠ .present ∧ operator ≠ .absent := by
  obtain ⟨lexeme, _, _, h⟩ := bind_eq_ok.1 h
  cases ht : Operator.ofToken? lexeme.token with
  | none =>
    rw [ht] at h
    cases h
  | some named =>
    rw [ht] at h
    cases h
    generalize lexeme.token = token at ht
    rcases ofToken?_eq_some ht with hs | hs | hs <;> cases hs <;> decide

end Parser

/-! ## 4. Faults of texts -/

/-- A text fails in three ways only. Between requirements or within one a lexeme cannot stand where
it stands, or a comparison has a bound that is no integer. What else could be refused never comes
out of a text: no lexeme is unknown, a list of values that is read is not empty and ends in front of
its parenthesis, and no operator after a key goes without values. -/
theorem parse_fails {text : String} {fault : Fault} (h : parse text = .error fault) :
    FailsIn (ofText text.toList) fault ∧
      scan text = .ok (ofText text.toList) ∧
      (∀ tape values after, Parser.slots tape = .ok values after →
        after.view.token = .closeParen ∧ values.isEmpty = false) ∧
      ∀ tape operator after, Parser.operator tape = .ok operator after →
        operator ≠ .present ∧ operator ≠ .absent := by
  have v := verdict_parse text
  rw [h] at v
  exact ⟨.of_verdict v, scan_eq text, fun _ _ _ => Parser.slots_ok, fun _ _ _ => Parser.operator_ok⟩

/-- A comparison with a word fails with the word. -/
theorem parse_fails_word :
    parse "x>a" = .error (.inRequirement (.boundNotInteger "a")) ∧
      FailsIn (ofText "x>a".toList) (.inRequirement (.boundNotInteger "a")) := by
  have h : parse "x>a" = .error (.inRequirement (.boundNotInteger "a")) := by decide +kernel
  exact ⟨h, (parse_fails h).1⟩

end Requirement

end LabelSelector
