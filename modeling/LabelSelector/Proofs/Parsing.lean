/-
LabelSelector.Proofs.Parsing — the readings follow the grammar.

Each reading is run on a tape that begins with lexemes of some form. Where the grammar has the
form, the reading takes just these lexemes and finds what they spell; where it has a refusal, the
reading fails with the refused lexeme's fault, whatever comes after that lexeme (`Fails`). A list
of slots is followed round by round (`slots_run`, `slots_refused`), and a requirement from its key
over its operator to its values (`requirement_shape`, `requirement_refused`).
-/
import LabelSelector.Proofs.Grammar

namespace LabelSelector

namespace Reading

/-! ## 1. Readings on a given tape -/

section

variable {α β : Type} {n : Nat} {first : Lexeme} {rest : List Lexeme}

theorem takeWord_cons : takeWord ⟨n, first :: rest⟩ = .ok first.asWord ⟨n + 1, rest⟩ := rfl

theorem takeOperator_cons : takeOperator ⟨n, first :: rest⟩ = .ok first ⟨n + 1, rest⟩ := rfl

theorem peekWord_cons : peekWord ⟨n, first :: rest⟩ = .ok first.asWord ⟨n, first :: rest⟩ := rfl

/-- A reading fails with a fault, wherever it leaves the tape. -/
def Fails (reading : Reading α) (tape : Tape) (fault : Fault) : Prop :=
  ∃ after, reading tape = .error fault after

theorem Fails.reject {found : Lexeme} {expected : String} {tape : Tape} :
    Fails (reject found expected : Reading α) tape (.unexpected found.literal expected) :=
  ⟨tape, rfl⟩

theorem Fails.bind_left {first : Reading α} {tape : Tape} {fault : Fault}
    (h : Fails first tape fault) (second : α → Reading β) :
    Fails (first >>= second) tape fault := by
  obtain ⟨after, h⟩ := h
  exact ⟨after, by rw [bind_apply, h]⟩

/-- After a reading that succeeds, the next one goes on from the tape it left. -/
theorem bind_of_eq_ok {first : Reading α} {tape after : Tape} {value : α}
    (h : first tape = .ok value after) (second : α → Reading β) :
    (first >>= second) tape = second value after := by
  rw [bind_apply, h]

theorem Fails.bind_right {first : Reading α} {second : α → Reading β} {tape after : Tape}
    {value : α} {fault : Fault} (h : first tape = .ok value after)
    (hs : Fails (second value) after fault) : Fails (first >>= second) tape fault := by
  obtain ⟨last, hs⟩ := hs
  exact ⟨last, by rw [bind_of_eq_ok h, hs]⟩

theorem Fails.adaptExcept {reading : Reading α} {tape : Tape} {fault : Fault}
    (h : Fails reading tape fault) (f : Fault → Fault) :
    Fails (EStateM.adaptExcept f reading) tape (f fault) := by
  obtain ⟨after, h⟩ := h
  exact ⟨after, by rw [EStateM.adaptExcept, h]⟩

theorem Fails.outcome {reading : Reading α} {tape : Tape} {fault : Fault}
    (h : Fails reading tape fault) : outcome (reading tape) = .error fault := by
  obtain ⟨after, h⟩ := h
  rw [h]
  rfl

theorem Fails.loop {round : α → Reading (Round α β)} {productive : Productive round} {state : α}
    {tape : Tape} {fault : Fault} (h : Fails (round state) tape fault) :
    Fails (Reading.loop round productive state) tape fault := by
  obtain ⟨after, h⟩ := h
  exact ⟨after, by rw [loop_eq, h]⟩

theorem loop_again {round : α → Reading (Round α β)} {productive : Productive round}
    {state state' : α} {tape after : Tape} (h : round state tape = .ok (.again state') after) :
    loop round productive state tape = loop round productive state' after := by
  rw [loop_eq, h]

theorem Fails.loop_again {round : α → Reading (Round α β)} {productive : Productive round}
    {state state' : α} {tape after : Tape} {fault : Fault}
    (h : round state tape = .ok (.again state') after)
    (hf : Fails (Reading.loop round productive state') after fault) :
    Fails (Reading.loop round productive state) tape fault := by
  obtain ⟨last, hf⟩ := hf
  exact ⟨last, by rw [Reading.loop_again h, hf]⟩

theorem loop_done {round : α → Reading (Round α β)} {productive : Productive round} {state : α}
    {tape after : Tape} {result : β} (h : round state tape = .ok (.done result) after) :
    loop round productive state tape = .ok result after := by
  rw [loop_eq, h]

end

end Reading

namespace Requirement

namespace Parser

open Lexeme Reading Grammar

variable {n : Nat} {first second found bang word comma sign closeParen openParen value : Lexeme}
  {rest slots post lexemes pre : List Lexeme} {values : ValueSet} {operator : Operator}
  {requirement : Requirement}

theorem asWord_bang (h : bang.token = .bang) : bang.asWord.token = .bang :=
  (asWord_token_eq rfl (by decide)).2 h

theorem asWord_comma (h : comma.IsComma) : comma.asWord.token = .comma :=
  (asWord_token_eq rfl (by decide)).2 h

theorem asWord_closeParen : found.asWord.token = .closeParen ↔ found.token = .closeParen :=
  asWord_token_eq rfl (by decide)

theorem asWord_openParen : found.asWord.token = .openParen ↔ found.token = .openParen :=
  asWord_token_eq rfl (by decide)

theorem asWord_stops : (found.asWord.token = .endOfText ∨ found.asWord.token = .comma) ↔
    found.Stops := by
  rw [asWord_token_eq rfl (by decide), asWord_token_eq rfl (by decide), or_comm]
  rfl

/-! ## 2. Keys, operators and single values -/

theorem key_bang (hb : bang.token = .bang) (hw : word.IsWord) :
    key ⟨n, bang :: word :: rest⟩ = .ok (word.literal, some .absent) ⟨n + 2, rest⟩ := by
  rw [key, bind_of_eq_ok takeWord_cons, if_pos (asWord_bang hb), bind_of_eq_ok takeWord_cons,
    if_pos (isWord_iff.1 hw)]
  rfl

theorem key_bang_refused (hb : bang.token = .bang) (hf : ¬ found.IsWord) :
    Fails key ⟨n, bang :: found :: rest⟩ (.unexpected found.literal Expected.word) := by
  refine .bind_right takeWord_cons ?_
  rw [if_pos (asWord_bang hb)]
  refine .bind_right takeWord_cons ?_
  rw [if_neg fun h => hf (isWord_iff.2 h)]
  exact .reject

theorem key_word (hw : word.IsWord) : key ⟨n, word :: first :: rest⟩ =
    .ok (word.literal, if first.Stops then some .present else none) ⟨n + 1, first :: rest⟩ := by
  have hbang : ¬ word.asWord.token = .bang := by
    rw [isWord_iff.1 hw]
    decide
  rw [key, bind_of_eq_ok takeWord_cons, if_neg hbang, if_pos (isWord_iff.1 hw),
    bind_of_eq_ok peekWord_cons]
  by_cases hs : first.Stops
  · rw [if_pos (asWord_stops.2 hs), if_pos hs]
    rfl
  · rw [if_neg fun h => hs (asWord_stops.1 h), if_neg hs]
    rfl

theorem operator_of_some (h : Operator.ofToken? first.token = some operator) :
    Parser.operator ⟨n, first :: rest⟩ = .ok operator ⟨n + 1, rest⟩ := by
  rw [Parser.operator, bind_of_eq_ok takeOperator_cons, h]
  rfl

theorem operator_refused (h : Operator.ofToken? found.token = none) :
    Fails Parser.operator ⟨n, found :: rest⟩ (.unexpected found.literal Expected.operator) := by
  refine .bind_right takeOperator_cons ?_
  rw [h]
  exact .reject

theorem singleValue_stops (hs : first.Stops) :
    singleValue ⟨n, first :: rest⟩ = .ok (.singleton "") ⟨n, first :: rest⟩ := by
  rw [singleValue, bind_of_eq_ok peekWord_cons, if_pos (asWord_stops.2 hs)]
  rfl

theorem singleValue_word (hw : word.IsWord) :
    singleValue ⟨n, word :: rest⟩ = .ok (.singleton word.literal) ⟨n + 1, rest⟩ := by
  have hs : ¬ word.Stops := Begins.not_stops (.inl hw)
  rw [singleValue, bind_of_eq_ok peekWord_cons, if_neg fun h => hs (asWord_stops.1 h),
    bind_of_eq_ok takeWord_cons, if_pos (isWord_iff.1 hw)]
  rfl

theorem singleValue_refused (hs : ¬ found.Stops) (hw : ¬ found.IsWord) :
    Fails singleValue ⟨n, found :: rest⟩ (.unexpected found.literal Expected.word) := by
  refine .bind_right peekWord_cons ?_
  rw [if_neg fun h => hs (asWord_stops.1 h)]
  refine .bind_right takeWord_cons ?_
  rw [if_neg fun h => hw (isWord_iff.2 h)]
  exact .reject

/-! ## 3. Lists of slots -/

theorem slotRound_wordComma (hw : word.IsWord) (hc : comma.IsComma) :
    slotRound values ⟨n, word :: comma :: rest⟩ =
      .ok (.again (values.insert word.literal)) ⟨n + 1, comma :: rest⟩ := by
  rw [slotRound, bind_of_eq_ok takeWord_cons]
  simp only [isWord_iff.1 hw]
  rw [bind_of_eq_ok peekWord_cons]
  simp only [asWord_comma hc]
  rfl

theorem slotRound_wordClose (hw : word.IsWord) (hc : closeParen.token = .closeParen) :
    slotRound values ⟨n, word :: closeParen :: rest⟩ =
      .ok (.done (values.insert word.literal)) ⟨n + 1, closeParen :: rest⟩ := by
  rw [slotRound, bind_of_eq_ok takeWord_cons]
  simp only [isWord_iff.1 hw]
  rw [bind_of_eq_ok peekWord_cons]
  simp only [asWord_closeParen.2 hc]
  rfl

theorem slotRound_word_refused (hw : word.IsWord) (hf : ¬ found.IsComma)
    (hp : found.token ≠ .closeParen) : Fails (slotRound values) ⟨n, word :: found :: rest⟩
      (.unexpected found.literal Expected.slotEnd) := by
  refine .bind_right takeWord_cons ?_
  simp only [isWord_iff.1 hw]
  refine .bind_right peekWord_cons ?_
  split
  · rename_i hc
    exact absurd ((asWord_token_eq rfl (by decide)).1 hc) hf
  · rename_i hc
    exact absurd (asWord_closeParen.1 hc) hp
  · exact .reject

theorem slotRound_commaClose (hc : comma.IsComma) (hp : closeParen.token = .closeParen) :
    slotRound values ⟨n, comma :: closeParen :: rest⟩ =
      .ok (.done ((opened values).insert "")) ⟨n + 1, closeParen :: rest⟩ := by
  rw [slotRound, bind_of_eq_ok takeWord_cons]
  simp only [asWord_comma hc]
  rw [bind_of_eq_ok peekWord_cons]
  simp only [asWord_closeParen.2 hp]
  rfl

theorem slotRound_commas (hc : comma.IsComma) (ho : first.IsComma) :
    slotRound values ⟨n, comma :: first :: rest⟩ =
      .ok (.again ((opened values).insert "")) ⟨n + 2, rest⟩ := by
  rw [slotRound, bind_of_eq_ok takeWord_cons]
  simp only [asWord_comma hc]
  rw [bind_of_eq_ok peekWord_cons]
  simp only [asWord_comma ho]
  rfl

theorem slotRound_comma (hc : comma.IsComma) (hf : ¬ first.IsComma)
    (hp : first.token ≠ .closeParen) : slotRound values ⟨n, comma :: first :: rest⟩ =
      .ok (.again (opened values)) ⟨n + 1, first :: rest⟩ := by
  have hp' : ¬ first.asWord.token = .closeParen := fun h => hp (asWord_closeParen.1 h)
  have hf' : ¬ first.asWord.token = .comma := fun h => hf ((asWord_token_eq rfl (by decide)).1 h)
  rw [slotRound, bind_of_eq_ok takeWord_cons]
  simp only [asWord_comma hc]
  rw [bind_of_eq_ok peekWord_cons]
  cases h : first.asWord.token with
  | closeParen => exact absurd h hp'
  | comma => exact absurd h hf'
  | _ => rfl

theorem slotRound_refused (hf : ¬ found.IsComma) (hw : ¬ found.IsWord) :
    Fails (slotRound values) ⟨n, found :: rest⟩ (.unexpected found.literal Expected.slot) := by
  refine .bind_right takeWord_cons ?_
  split
  · rename_i h
    exact absurd (isWord_iff.2 h) hw
  · rename_i h
    exact absurd ((asWord_token_eq rfl (by decide)).1 h) hf
  · exact .reject

/-- The texts that a list of slots adds to the values found before it. A comma in front, where
values were found, ends the slot before it and shows none of its own. -/
def pendingTexts (values : ValueSet) : List Lexeme → List String
  | [] => [""]
  | first :: rest =>
    if first.IsComma ∧ values.isEmpty = false then slotTexts rest else slotTexts (first :: rest)

theorem pendingTexts_word (hw : word.IsWord) :
    pendingTexts values (word :: rest) = slotTexts (word :: rest) := by
  simp [pendingTexts, hw.not_isComma]

/-- Taking a comma adds the empty text where no value was found before. -/
theorem mem_opened {text : String} :
    text ∈ opened values ↔ text ∈ values ∨ (text = "" ∧ values.isEmpty = true) := by
  unfold opened
  split
  · rename_i h
    have hnone : text ∉ values := ValueSet.isEmpty_iff.1 h text
    simp [h, hnone]
  · rename_i h
    simp [h]

theorem mem_opened_or_pending (hc : comma.IsComma) {text : String} :
    (text ∈ opened values ∨ text ∈ slotTexts rest) ↔
      (text ∈ values ∨ text ∈ pendingTexts values (comma :: rest)) := by
  rw [mem_opened]
  cases h : values.isEmpty with
  | true => simp [pendingTexts, hc, h, slotTexts_comma hc, or_assoc]
  | false => simp [pendingTexts, hc, h]

/-- Once the empty text was found, it is all the same whether a comma shows an empty slot. -/
theorem mem_or_pending_of_mem (hv : "" ∈ values) {text : String} :
    (text ∈ values ∨ text ∈ pendingTexts values slots) ↔
      (text ∈ values ∨ text ∈ slotTexts slots) := by
  cases slots with
  | nil => rfl
  | cons first rest =>
    by_cases h : first.IsComma ∧ values.isEmpty = false
    · rw [pendingTexts, if_pos h, slotTexts_comma h.1, List.mem_cons, ← or_assoc]
      refine or_congr_left ⟨.inl, ?_⟩
      rintro (h | rfl)
      · exact h
      · exact hv
    · rw [pendingTexts, if_neg h]

/-- A list of slots is read up to the parenthesis after it, and the values found are those found
before it and the texts of its slots. -/
theorem slots_run (run : SlotRun slots) (hp : closeParen.token = .closeParen) (n : Nat)
    (values : ValueSet) :
    ∃ result, loop slotRound slotRound_productive values ⟨n, slots ++ closeParen :: post⟩ =
        .ok result ⟨n + slots.length, closeParen :: post⟩ ∧
      ∀ text, text ∈ result ↔ text ∈ values ∨ text ∈ pendingTexts values slots := by
  -- By induction on the rounds, for any values found before. What each round adds moves from the
  -- pending texts to the values.
  induction run generalizing n values with
  | word hw =>
    refine ⟨_, loop_done (slotRound_wordClose hw hp), fun text => ?_⟩
    rw [pendingTexts_word hw, slotTexts_word hw]
    simp [or_comm]
  | comma hc =>
    refine ⟨_, loop_done (slotRound_commaClose hc hp), fun text => ?_⟩
    rw [← mem_opened_or_pending hc, slotTexts_nil]
    simp [or_comm]
  | @wordComma word comma rest hw hc _ ih =>
    obtain ⟨result, hrun, hmem⟩ := ih (n + 1) (values.insert word.literal)
    have hlen : n + (word :: comma :: rest).length = n + 1 + (comma :: rest).length := by
      simp only [List.length_cons]
      omega
    refine ⟨result, ?_, fun text => ?_⟩
    · rw [hlen, ← hrun]
      exact loop_again (slotRound_wordComma hw hc)
    · have hsome := ValueSet.isEmpty_insert values word.literal
      rw [hmem, pendingTexts_word hw, slotTexts_word_comma hw hc]
      simp [pendingTexts, hc, hsome, or_left_comm, or_assoc]
  | @commaWord comma word rest hc hw _ ih =>
    obtain ⟨result, hrun, hmem⟩ := ih (n + 1) (opened values)
    have hlen : n + (comma :: word :: rest).length = n + 1 + (word :: rest).length := by
      simp only [List.length_cons]
      omega
    refine ⟨result, ?_, fun text => ?_⟩
    · rw [hlen, ← hrun]
      exact loop_again (slotRound_comma hc hw.not_isComma hw.token_ne_close)
    · rw [hmem, pendingTexts_word hw, mem_opened_or_pending hc]
  | @commas comma other rest hc ho _ ih =>
    obtain ⟨result, hrun, hmem⟩ := ih (n + 2) ((opened values).insert "")
    have hlen : n + (comma :: other :: rest).length = n + 2 + rest.length := by
      simp only [List.length_cons]
      omega
    refine ⟨result, ?_, fun text => ?_⟩
    · rw [hlen, ← hrun]
      exact loop_again (slotRound_commas hc ho)
    · rw [hmem, mem_or_pending_of_mem (by simp), ← mem_opened_or_pending hc, slotTexts_comma ho]
      simp [or_left_comm, or_assoc]

/-- A beginning of a list of slots is read up to the lexeme it is refused at. -/
theorem slots_refused {expected : String} (h : SlotRefusal slots found expected) (n : Nat)
    (values : ValueSet) :
    Fails (loop slotRound slotRound_productive values) ⟨n, slots ++ found :: post⟩
      (.unexpected found.literal expected) := by
  induction h generalizing n values with
  | afterWord hw hf hp => exact .loop (slotRound_word_refused hw hf hp)
  | afterComma hc hf hw hp =>
    exact .loop_again (slotRound_comma hc hf hp) (.loop (slotRound_refused hf hw))
  | afterCommas hc ho hf hw =>
    exact .loop_again (slotRound_commas hc ho) (.loop (slotRound_refused hf hw))
  | wordComma hw hc _ ih => exact .loop_again (slotRound_wordComma hw hc) (ih _ _)
  | commaWord hc hw _ ih =>
    exact .loop_again (slotRound_comma hc hw.not_isComma hw.token_ne_close) (ih _ _)
  | commas hc ho _ ih => exact .loop_again (slotRound_commas hc ho) (ih _ _)

/-! ## 4. Values -/

theorem asWord_slot (h : first.IsWord ∨ first.IsComma) :
    first.asWord.token = .identifier ∨ first.asWord.token = .comma := by
  rcases h with hw | hc
  · exact .inl (isWord_iff.1 hw)
  · exact .inr (asWord_comma hc)

/-- From no value on, the texts of a list are those of its slots. -/
theorem pendingTexts_empty (slots : List Lexeme) : pendingTexts .empty slots = slotTexts slots := by
  cases slots with
  | nil => rfl
  | cons first rest =>
    have h : ¬ (first.IsComma ∧ ValueSet.empty.isEmpty = false) := by
      rintro ⟨_, h⟩
      exact absurd h (by decide)
    rw [pendingTexts, if_neg h]

/-- What is done at an opening parenthesis with a slot behind it. -/
theorem valueList_slots (ho : openParen.token = .openParen) (hf : first.IsWord ∨ first.IsComma) :
    valueList ⟨n, openParen :: first :: rest⟩ =
      (Parser.slots >>= fun found => takeWord >>= fun last =>
        if last.token = .closeParen then pure found else reject last Expected.closeParen)
        ⟨n + 1, first :: rest⟩ := by
  rw [valueList, bind_of_eq_ok takeWord_cons, if_pos (asWord_openParen.2 ho),
    bind_of_eq_ok peekWord_cons]
  rcases asWord_slot hf with h | h <;> simp only [h]

theorem valueList_run (ho : openParen.token = .openParen) (run : SlotRun lexemes)
    (hp : closeParen.token = .closeParen) :
    valueList ⟨n, openParen :: (lexemes ++ closeParen :: post)⟩ =
      .ok (.ofList (slotTexts lexemes)) ⟨n + lexemes.length + 2, post⟩ := by
  obtain ⟨result, hrun, hmem⟩ := slots_run run hp (n + 1) .empty
  have hread : Parser.slots ⟨n + 1, lexemes ++ closeParen :: post⟩ =
      .ok result ⟨n + 1 + lexemes.length, closeParen :: post⟩ := hrun
  have hresult : result = .ofList (slotTexts lexemes) := by
    ext text
    rw [hmem, pendingTexts_empty, ValueSet.mem_ofList, ValueSet.mem_empty, false_or]
  obtain ⟨first, rest, rfl, hslot⟩ := run.exists_cons
  rw [List.cons_append, valueList_slots ho hslot]
  rw [List.cons_append] at hread
  rw [bind_of_eq_ok hread, bind_of_eq_ok takeWord_cons, if_pos (asWord_closeParen.2 hp), hresult]
  have hlen : n + 1 + (first :: rest).length + 1 = n + (first :: rest).length + 2 := by omega
  rw [hlen]
  rfl

theorem valueList_empty (ho : openParen.token = .openParen)
    (hp : closeParen.token = .closeParen) :
    valueList ⟨n, openParen :: closeParen :: post⟩ = .ok (.singleton "") ⟨n + 2, post⟩ := by
  rw [valueList, bind_of_eq_ok takeWord_cons, if_pos (asWord_openParen.2 ho),
    bind_of_eq_ok peekWord_cons]
  simp only [asWord_closeParen.2 hp]
  rfl

/-- A list of values is read with its parentheses. -/
theorem valueList_read (ho : openParen.token = .openParen) (hs : SlotList lexemes)
    (hp : closeParen.token = .closeParen) :
    valueList ⟨n, openParen :: (lexemes ++ closeParen :: post)⟩ =
      .ok (.ofList (slotTexts lexemes)) ⟨n + lexemes.length + 2, post⟩ := by
  by_cases hne : lexemes = []
  · subst hne
    exact valueList_empty ho hp
  · exact valueList_run ho (hs.slotRun hne) hp

theorem valueList_open_refused (hf : found.token ≠ .openParen) :
    Fails valueList ⟨n, found :: rest⟩ (.unexpected found.literal Expected.openParen) := by
  refine .bind_right takeWord_cons ?_
  rw [if_neg fun h => hf (asWord_openParen.1 h)]
  exact .reject

theorem valueList_first_refused (ho : openParen.token = .openParen)
    (hf : ¬ (found.IsWord ∨ found.IsComma)) (hc : found.token ≠ .closeParen) :
    Fails valueList ⟨n, openParen :: found :: rest⟩
      (.unexpected found.literal Expected.firstSlot) := by
  refine .bind_right takeWord_cons ?_
  rw [if_pos (asWord_openParen.2 ho)]
  refine .bind_right peekWord_cons ?_
  split
  · rename_i h
    exact absurd (.inl (isWord_iff.2 h)) hf
  · rename_i h
    exact absurd (.inr ((asWord_token_eq rfl (by decide)).1 h)) hf
  · rename_i h
    exact absurd (asWord_closeParen.1 h) hc
  · exact .reject

theorem valueList_slots_refused {expected : String} (ho : openParen.token = .openParen)
    (h : SlotRefusal lexemes found expected) :
    Fails valueList ⟨n, openParen :: (lexemes ++ found :: post)⟩
      (.unexpected found.literal expected) := by
  have hread : Fails Parser.slots ⟨n + 1, lexemes ++ found :: post⟩
      (.unexpected found.literal expected) := slots_refused h (n + 1) .empty
  obtain ⟨first, rest, rfl, hslot⟩ := h.exists_cons
  obtain ⟨after, hfails⟩ := hread.bind_left fun values => takeWord >>= fun last =>
    if last.token = .closeParen then pure values else reject last Expected.closeParen
  refine ⟨after, ?_⟩
  rw [List.cons_append, valueList_slots ho hslot]
  exact hfails

/-! ## 5. One requirement -/

theorem ofToken?_equality (h : EqualitySign sign.token operator) :
    Operator.ofToken? sign.token = some operator ∧ valuesOf operator = singleValue := by
  generalize sign.token = token at h
  cases h <;> exact ⟨rfl, rfl⟩

theorem ofToken?_comparison (h : ComparisonSign sign.token operator) :
    Operator.ofToken? sign.token = some operator ∧ valuesOf operator = singleValue := by
  generalize sign.token = token at h
  cases h <;> exact ⟨rfl, rfl⟩

theorem ofToken?_membership (h : MembershipWord sign.token operator) :
    Operator.ofToken? sign.token = some operator ∧ valuesOf operator = valueList := by
  generalize sign.token = token at h
  cases h <;> exact ⟨rfl, rfl⟩

theorem not_stops_of_ofToken? (h : Operator.ofToken? first.token = some operator) :
    ¬ first.Stops := by
  rintro (hs | hs)
  · unfold IsComma at hs
    rw [hs] at h
    cases h
  · rw [hs] at h
    cases h

theorem requirement_bang (hb : bang.token = .bang) (hw : word.IsWord) :
    Parser.requirement ⟨n, bang :: word :: rest⟩ =
      ofResult (build word.literal .absent .empty) ⟨n + 2, rest⟩ := by
  rw [Parser.requirement, bind_of_eq_ok (key_bang hb hw)]

theorem requirement_present (hw : word.IsWord) (hs : first.Stops) :
    Parser.requirement ⟨n, word :: first :: rest⟩ =
      ofResult (build word.literal .present .empty) ⟨n + 1, first :: rest⟩ := by
  rw [Parser.requirement, bind_of_eq_ok (key_word hw), if_pos hs]

/-- After a key and an operator the values decide. -/
theorem requirement_signed (hk : word.IsWord) (ho : Operator.ofToken? sign.token = some operator) :
    Parser.requirement ⟨n, word :: sign :: rest⟩ =
      (valuesOf operator >>= fun values => ofResult (build word.literal operator values))
        ⟨n + 2, rest⟩ := by
  rw [Parser.requirement, bind_of_eq_ok (key_word hk), if_neg (not_stops_of_ofToken? ho)]
  show (Parser.operator >>= fun operator => valuesOf operator >>= fun values =>
    ofResult (build word.literal operator values)) ⟨n + 1, sign :: rest⟩ = _
  rw [bind_of_eq_ok (operator_of_some ho)]

/-- Where the values of an operator are read, the requirement is built of them. -/
theorem requirement_values_read {reading : Reading ValueSet} {after : Tape} (hk : word.IsWord)
    (hsign : Operator.ofToken? sign.token = some operator ∧ valuesOf operator = reading)
    (h : reading ⟨n + 2, rest⟩ = .ok values after) :
    Parser.requirement ⟨n, word :: sign :: rest⟩ =
      ofResult (build word.literal operator values) after := by
  obtain ⟨ho, rfl⟩ := hsign
  rw [requirement_signed hk ho, bind_of_eq_ok h]

/-- Where the values of an operator are refused, so is the requirement. -/
theorem requirement_values_fail {fault : Fault} {reading : Reading ValueSet} (hk : word.IsWord)
    (hsign : Operator.ofToken? sign.token = some operator ∧ valuesOf operator = reading)
    (h : Fails reading ⟨n + 2, rest⟩ fault) :
    Fails Parser.requirement ⟨n, word :: sign :: rest⟩ fault := by
  obtain ⟨ho, rfl⟩ := hsign
  obtain ⟨after, h⟩ := h.bind_left fun values => ofResult (build word.literal operator values)
  exact ⟨after, by rw [requirement_signed hk ho, h]⟩

/-- A requirement that is closed is read whatever follows it. -/
theorem requirement_closed {key : String} (h : Closed pre key operator values) :
    Parser.requirement ⟨n, pre ++ post⟩ =
      ofResult (build key operator values) ⟨n + pre.length, post⟩ := by
  cases h with
  | absent hb hk => exact requirement_bang hb hk
  | equality hk hs hv =>
    exact requirement_values_read hk (ofToken?_equality hs) (singleValue_word hv)
  | comparison hk hs hv _ =>
    exact requirement_values_read hk (ofToken?_comparison hs) (singleValue_word hv)
  | @membership _ _ _ _ lexemes _ hk hw hopen hs hclose =>
    -- The parenthesis that closes the list stands last in `pre`, not first in `post`.
    simp only [List.cons_append, List.append_assoc, List.nil_append, List.length_cons,
      List.length_append, List.length_nil]
    rw [requirement_values_read hk (ofToken?_membership hw) (valueList_read hopen hs hclose)]
    have hlen : n + 2 + lexemes.length + 2 = n + (lexemes.length + (0 + 1) + 1 + 1 + 1) := by omega
    rw [hlen]

/-- Every form of a requirement is read where what follows stops it. -/
theorem requirement_shape {key : String} (h : Shape pre key operator values) (hs : found.Stops) :
    Parser.requirement ⟨n, pre ++ found :: post⟩ =
      ofResult (build key operator values) ⟨n + pre.length, found :: post⟩ := by
  cases h with
  | closed closed => exact requirement_closed closed
  | present hk => exact requirement_present hk hs
  | blank hk hsign =>
    exact requirement_values_read hk (ofToken?_equality hsign) (singleValue_stops hs)

theorem requirement_spells {read : Requirement} (h : Spells pre read) (hs : found.Stops) :
    Parser.requirement ⟨n, pre ++ found :: post⟩ =
      .ok read ⟨n + pre.length, found :: post⟩ := by
  rw [requirement_shape h hs, build_self]
  rfl

/-- A refused beginning of a requirement is read up to the refused lexeme. -/
theorem requirement_refused {expected : String} (h : Refusal pre found expected) :
    Fails Parser.requirement ⟨n, pre ++ found :: post⟩ (.unexpected found.literal expected) := by
  cases h with
  | key hb hf => exact .bind_left (key_bang_refused hb hf) _
  | operator hk hs hf =>
    refine .bind_right (key_word hk) ?_
    rw [if_neg hs]
    exact .bind_left (operator_refused hf) _
  | value hk hs hf hw =>
    have hsign := hs.elim ofToken?_equality ofToken?_comparison
    exact requirement_values_fail hk hsign (singleValue_refused hf hw)
  | openParen hk hw hf =>
    exact requirement_values_fail hk (ofToken?_membership hw) (valueList_open_refused hf)
  | firstSlot hk hw hopen hf hc =>
    exact requirement_values_fail hk (ofToken?_membership hw)
      (valueList_first_refused hopen hf hc)
  | slots hk hw hopen refusal =>
    exact requirement_values_fail hk (ofToken?_membership hw)
      (valueList_slots_refused hopen refusal)

theorem int64?_blank : Text.int64? "" = none := by decide

/-- A comparison with a word that is no integer cannot be built. -/
theorem build_badBound {key bound : String} {token : Token}
    (hk : key ≠ "" ∧ Text.isIdentifier key = true) (hs : ComparisonSign token operator)
    (hv : Text.isIdentifier bound = true) (hi : Text.int64? bound = none) :
    build key operator (.singleton bound) = .error (.boundNotInteger bound) := by
  have hvalues : ∀ text ∈ ValueSet.singleton bound, Text.isIdentifier text = true := by
    intro text hmem
    rw [ValueSet.mem_singleton] at hmem
    rw [hmem, hv]
  rw [build_eq_error_iff, fault?_eq hk hvalues, fault?_singleton_of_no_integer hs hi]

/-- A comparison with a word that is no integer fails with that word. -/
theorem requirement_badBound {bound : String} (h : BadBound pre found bound) (hs : Sound pre) :
    Fails Parser.requirement ⟨n, pre ++ found :: post⟩ (.boundNotInteger bound) := by
  cases h with
  | @blank key sign _ operator hk hsign hstop =>
    have hbuild := build_badBound (hs key (by simp) hk) hsign Text.isIdentifier_empty int64?_blank
    refine ⟨⟨n + 2, found :: post⟩, ?_⟩
    show Parser.requirement ⟨n, key :: sign :: found :: post⟩ = _
    rw [requirement_values_read hk (ofToken?_comparison hsign) (singleValue_stops hstop), hbuild]
    rfl
  | @word key sign value _ operator hk hsign hv hi =>
    have hbuild := build_badBound (hs key (by simp) hk) hsign (hs value (by simp) hv).2 hi
    refine ⟨⟨n + 3, found :: post⟩, ?_⟩
    show Parser.requirement ⟨n, key :: sign :: value :: found :: post⟩ = _
    rw [requirement_values_read hk (ofToken?_comparison hsign) (singleValue_word hv), hbuild]
    rfl

end Parser

end Requirement

end LabelSelector
