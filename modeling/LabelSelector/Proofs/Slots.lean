/-
LabelSelector.Proofs.Slots — the lists of values between parentheses, as lexemes.

A list is words and commas in which no two words are adjacent, and which does not end in an even
number of commas, none excepted (`SlotList`). Its slots are what stands between the commas, and
their texts are the values (`slotTexts`).

Lists are read in rounds that take a word, a comma, or two commas at once. `SlotRun` is a list as
it falls into such rounds, and `SlotRefusal` is the beginning of one with the lexeme that stops
it. Words and commas before a closing parenthesis are one or the other, whatever they end in
(`SlotRow.run_or_refusal`), and runs are the lists that are not empty (`SlotRun.slotList`,
`SlotList.slotRun`). Whatever begins like a list is a run or refused too (`slot_cases`), and a
refused beginning lacks at most a word to be a run (`SlotRefusal.completable`).
-/
import LabelSelector.Requirement.Parser
import Mathlib.Data.List.TakeWhile

namespace LabelSelector

namespace Lexeme

/-! ## 1. Words and commas -/

/-- A lexeme that can stand as a key or a value. -/
def IsWord (lexeme : Lexeme) : Prop :=
  lexeme.token = .identifier ∨ lexeme.token = .isIn ∨ lexeme.token = .notIn

/-- A lexeme that separates slots or requirements. -/
def IsComma (lexeme : Lexeme) : Prop :=
  lexeme.token = .comma

instance (lexeme : Lexeme) : Decidable lexeme.IsWord :=
  inferInstanceAs (Decidable (_ ∨ _ ∨ _))

instance (lexeme : Lexeme) : Decidable lexeme.IsComma :=
  inferInstanceAs (Decidable (_ = _))

theorem isComma_comma : IsComma ⟨.comma, ","⟩ := rfl

/-- Words are the lexemes that count as identifiers outside operator position. -/
theorem isWord_iff {lexeme : Lexeme} : lexeme.IsWord ↔ lexeme.asWord.token = .identifier := by
  obtain ⟨token, literal⟩ := lexeme
  cases token <;> simp [IsWord, asWord, Token.asWord]

theorem IsWord.not_isComma {lexeme : Lexeme} (h : lexeme.IsWord) : ¬ lexeme.IsComma := by
  unfold IsComma
  rcases h with h | h | h <;> rw [h] <;> decide

theorem IsWord.token_ne_end {lexeme : Lexeme} (h : lexeme.IsWord) : lexeme.token ≠ .endOfText := by
  rcases h with h | h | h <;> rw [h] <;> decide

theorem IsWord.token_ne_close {lexeme : Lexeme} (h : lexeme.IsWord) :
    lexeme.token ≠ .closeParen := by
  rcases h with h | h | h <;> rw [h] <;> decide

/-- A kind that no word has counts the same in every position. -/
theorem asWord_token_eq {lexeme : Lexeme} {token : Token} (h : token.asWord = token)
    (hi : token ≠ .identifier) : lexeme.asWord.token = token ↔ lexeme.token = token := by
  obtain ⟨kind, literal⟩ := lexeme
  cases kind <;> cases token <;> simp_all [asWord, Token.asWord]

end Lexeme

namespace Requirement

namespace Grammar

open Lexeme

variable {slots rest : List Lexeme} {first second : Lexeme}

/-! ## 2. Lists of slots -/

/-- The number of commas that some lexemes end in. -/
def commasAtEnd (slots : List Lexeme) : Nat :=
  (slots.reverse.takeWhile fun lexeme => lexeme.IsComma).length

/-- The lexemes that may stand between the parentheses after `in` or `notin`. -/
structure SlotList (slots : List Lexeme) : Prop where
  wordOrComma : ∀ lexeme ∈ slots, lexeme.IsWord ∨ lexeme.IsComma
  apart : ∀ a b, [a, b] <:+: slots → ¬ (a.IsWord ∧ b.IsWord)
  ending : commasAtEnd slots = 0 ∨ commasAtEnd slots % 2 = 1

/-- The texts of the slots, a slot without a word being the empty text. -/
def slotTexts (slots : List Lexeme) : List String :=
  (slots.splitOnP fun lexeme => lexeme.IsComma).map fun slot =>
    (slot.head?.map Lexeme.literal).getD ""

theorem slotTexts_nil : slotTexts [] = [""] := rfl

theorem slotTexts_comma (h : first.IsComma) : slotTexts (first :: rest) = "" :: slotTexts rest := by
  simp [slotTexts, List.splitOnP_cons_eq_if_modifyHead, h]

theorem slotTexts_word (h : first.IsWord) : slotTexts [first] = [first.literal] := by
  simp [slotTexts, List.splitOnP_cons_eq_if_modifyHead, h.not_isComma]

theorem slotTexts_word_comma (h : first.IsWord) (hc : second.IsComma) :
    slotTexts (first :: second :: rest) = first.literal :: slotTexts rest := by
  simp [slotTexts, List.splitOnP_cons_eq_if_modifyHead, h.not_isComma, hc]

theorem commasAtEnd_of_all (h : ∀ lexeme ∈ slots, lexeme.IsComma) :
    commasAtEnd slots = slots.length := by
  rw [commasAtEnd, ← @List.length_reverse _ slots]
  congr 1
  rw [List.takeWhile_eq_self_iff]
  intro lexeme hmem
  simpa using h lexeme (List.mem_reverse.1 hmem)

/-- What stands before a lexeme that is no comma does not count. -/
theorem commasAtEnd_cons_of_exists (h : ∃ lexeme ∈ rest, ¬ lexeme.IsComma) :
    commasAtEnd (first :: rest) = commasAtEnd rest := by
  obtain ⟨lexeme, hmem, hc⟩ := h
  unfold commasAtEnd
  rw [List.reverse_cons, List.takeWhile_append, if_neg]
  intro hlen
  have hall := (List.takeWhile_prefix _).eq_of_length hlen
  rw [List.takeWhile_eq_self_iff] at hall
  exact hc (by simpa using hall lexeme (List.mem_reverse.2 hmem))

theorem commasAtEnd_cons_of_not (h : ¬ first.IsComma) :
    commasAtEnd (first :: rest) = commasAtEnd rest := by
  by_cases hall : ∀ lexeme ∈ rest, lexeme.IsComma
  · have hrev : rest.reverse.takeWhile (fun lexeme => lexeme.IsComma) = rest.reverse := by
      rw [List.takeWhile_eq_self_iff]
      intro lexeme hmem
      simpa using hall lexeme (List.mem_reverse.1 hmem)
    simp [commasAtEnd, List.takeWhile_append, hrev, h]
  · apply commasAtEnd_cons_of_exists
    simpa using hall

/-- Two more commas in front leave the parity at the end, unless nothing else was there. -/
theorem commasAtEnd_two_commas (hf : first.IsComma) (hs : second.IsComma) (hne : rest ≠ []) :
    (commasAtEnd (first :: second :: rest) = 0 ∨ commasAtEnd (first :: second :: rest) % 2 = 1) ↔
      (commasAtEnd rest = 0 ∨ commasAtEnd rest % 2 = 1) := by
  by_cases hall : ∀ lexeme ∈ rest, lexeme.IsComma
  · have hlen : 0 < rest.length := List.length_pos_iff.2 hne
    rw [commasAtEnd_of_all hall, commasAtEnd_of_all (by simp [hf, hs]; exact hall)]
    simp only [List.length_cons]
    omega
  · have hex : ∃ lexeme ∈ rest, ¬ lexeme.IsComma := by simpa using hall
    rw [commasAtEnd_cons_of_exists, commasAtEnd_cons_of_exists hex]
    obtain ⟨lexeme, hmem, hc⟩ := hex
    exact ⟨lexeme, List.mem_cons_of_mem _ hmem, hc⟩

/-- Words and commas in which no two words are adjacent, whatever they end in. -/
structure SlotRow (slots : List Lexeme) : Prop where
  wordOrComma : ∀ lexeme ∈ slots, lexeme.IsWord ∨ lexeme.IsComma
  apart : ∀ a b, [a, b] <:+: slots → ¬ (a.IsWord ∧ b.IsWord)

theorem SlotRow.slotList (h : SlotRow slots)
    (he : commasAtEnd slots = 0 ∨ commasAtEnd slots % 2 = 1) : SlotList slots :=
  ⟨h.wordOrComma, h.apart, he⟩

theorem SlotList.row (h : SlotList slots) : SlotRow slots :=
  ⟨h.wordOrComma, h.apart⟩

theorem SlotRow.nil : SlotRow [] where
  wordOrComma := by simp
  apart := by simp

theorem SlotList.nil : SlotList [] :=
  SlotRow.nil.slotList (.inl rfl)

theorem SlotRow.cons (hf : first.IsWord ∨ first.IsComma)
    (hs : ∀ second ∈ rest.head?, ¬ (first.IsWord ∧ second.IsWord)) (h : SlotRow rest) :
    SlotRow (first :: rest) where
  wordOrComma := by
    intro lexeme hmem
    rcases List.mem_cons.1 hmem with rfl | hmem
    · exact hf
    · exact h.wordOrComma lexeme hmem
  apart := by
    intro a b hi
    rcases List.infix_cons_iff.1 hi with hp | hi
    · obtain ⟨_, ⟨rfl, rfl⟩, tail, rfl⟩ : ∃ more, (first = a ∧ rest = more) ∧
          ∃ tail, more = b :: tail := by
        simpa [List.cons_prefix_iff] using hp
      exact hs b rfl
    · exact h.apart a b hi

theorem SlotRow.comma_cons (h : SlotRow rest) (hc : first.IsComma) : SlotRow (first :: rest) :=
  h.cons (.inr hc) fun _ _ hw => hw.1.not_isComma hc

theorem SlotRow.cons_comma (h : SlotRow (second :: rest)) (hf : first.IsWord ∨ first.IsComma)
    (hc : second.IsComma) : SlotRow (first :: second :: rest) := by
  refine h.cons hf fun other hmem hw => ?_
  obtain rfl : second = other := by simpa using hmem
  exact hw.2.not_isComma hc

theorem SlotRow.of_cons (h : SlotRow (first :: rest)) : SlotRow rest where
  wordOrComma := fun lexeme hmem => h.wordOrComma lexeme (List.mem_cons_of_mem _ hmem)
  apart := fun a b hi => h.apart a b (hi.trans (List.suffix_cons _ _).isInfix)

/-! ## 3. Rounds -/

/-- A list of slots as it falls into rounds: a word, a comma, or two commas. -/
inductive SlotRun : List Lexeme → Prop
  | word {word : Lexeme} (hw : word.IsWord) : SlotRun [word]
  | comma {comma : Lexeme} (hc : comma.IsComma) : SlotRun [comma]
  | wordComma {word comma : Lexeme} {rest : List Lexeme} (hw : word.IsWord) (hc : comma.IsComma)
      (run : SlotRun (comma :: rest)) : SlotRun (word :: comma :: rest)
  | commaWord {comma word : Lexeme} {rest : List Lexeme} (hc : comma.IsComma) (hw : word.IsWord)
      (run : SlotRun (word :: rest)) : SlotRun (comma :: word :: rest)
  | commas {comma other : Lexeme} {rest : List Lexeme} (hc : comma.IsComma) (ho : other.IsComma)
      (run : SlotRun rest) : SlotRun (comma :: other :: rest)

theorem SlotRun.ne_nil (h : SlotRun slots) : slots ≠ [] := by
  cases h <;> simp

theorem SlotRun.exists_cons (h : SlotRun slots) :
    ∃ first rest, slots = first :: rest ∧ (first.IsWord ∨ first.IsComma) := by
  cases h with
  | word hw => exact ⟨_, _, rfl, .inl hw⟩
  | comma hc => exact ⟨_, _, rfl, .inr hc⟩
  | wordComma hw _ _ => exact ⟨_, _, rfl, .inl hw⟩
  | commaWord hc _ _ => exact ⟨_, _, rfl, .inr hc⟩
  | commas hc _ _ => exact ⟨_, _, rfl, .inr hc⟩

theorem SlotRun.row (h : SlotRun slots) : SlotRow slots := by
  induction h with
  | word hw => exact SlotRow.nil.cons (.inl hw) (by simp)
  | comma hc => exact SlotRow.nil.cons (.inr hc) (by simp)
  | wordComma hw hc _ ih => exact ih.cons_comma (.inl hw) hc
  | commaWord hc _ _ ih => exact ih.comma_cons hc
  | commas hc ho _ ih => exact (ih.comma_cons ho).comma_cons hc

theorem SlotRun.ending (h : SlotRun slots) :
    commasAtEnd slots = 0 ∨ commasAtEnd slots % 2 = 1 := by
  induction h with
  | word hw => exact .inl (commasAtEnd_cons_of_not hw.not_isComma)
  | comma hc =>
    rw [commasAtEnd_of_all (by simpa using hc)]
    exact .inr rfl
  | wordComma hw _ _ ih =>
    rw [commasAtEnd_cons_of_not hw.not_isComma]
    exact ih
  | commaWord _ hw _ ih =>
    rw [commasAtEnd_cons_of_exists ⟨_, List.mem_cons_self, hw.not_isComma⟩]
    exact ih
  | commas hc ho run ih => exact (commasAtEnd_two_commas hc ho run.ne_nil).2 ih

theorem SlotRun.slotList (h : SlotRun slots) : SlotList slots :=
  h.row.slotList h.ending

/-! ## 4. Refusals -/

/-- The beginning of a list of slots, with the lexeme that stops it and what was expected. -/
inductive SlotRefusal : List Lexeme → Lexeme → String → Prop
  | afterWord {word found : Lexeme} (hw : word.IsWord) (hf : ¬ found.IsComma)
      (hp : found.token ≠ .closeParen) : SlotRefusal [word] found Expected.slotEnd
  | afterComma {comma found : Lexeme} (hc : comma.IsComma) (hf : ¬ found.IsComma)
      (hw : ¬ found.IsWord) (hp : found.token ≠ .closeParen) :
      SlotRefusal [comma] found Expected.slot
  | afterCommas {comma other found : Lexeme} (hc : comma.IsComma) (ho : other.IsComma)
      (hf : ¬ found.IsComma) (hw : ¬ found.IsWord) : SlotRefusal [comma, other] found Expected.slot
  | wordComma {word comma found : Lexeme} {rest : List Lexeme} {expected : String}
      (hw : word.IsWord) (hc : comma.IsComma)
      (refusal : SlotRefusal (comma :: rest) found expected) :
      SlotRefusal (word :: comma :: rest) found expected
  | commaWord {comma word found : Lexeme} {rest : List Lexeme} {expected : String}
      (hc : comma.IsComma) (hw : word.IsWord)
      (refusal : SlotRefusal (word :: rest) found expected) :
      SlotRefusal (comma :: word :: rest) found expected
  | commas {comma other found : Lexeme} {rest : List Lexeme} {expected : String}
      (hc : comma.IsComma) (ho : other.IsComma) (refusal : SlotRefusal rest found expected) :
      SlotRefusal (comma :: other :: rest) found expected

/-- A refused beginning is a list by itself, or becomes one by any further word. -/
theorem SlotRefusal.completable {found : Lexeme} {expected : String}
    (h : SlotRefusal slots found expected) :
    SlotRun slots ∨ ∀ word : Lexeme, word.IsWord → SlotRun (slots ++ [word]) := by
  induction h with
  | afterWord hw _ _ => exact .inl (.word hw)
  | afterComma hc _ _ _ => exact .inr fun word hw => .commaWord hc hw (.word hw)
  | afterCommas hc ho _ _ => exact .inr fun word hw => .commas hc ho (.word hw)
  | wordComma hw hc _ ih =>
    exact ih.imp (.wordComma hw hc) fun ih word hword => .wordComma hw hc (ih word hword)
  | commaWord hc hw _ ih =>
    exact ih.imp (.commaWord hc hw) fun ih word hword => .commaWord hc hw (ih word hword)
  | commas hc ho _ ih =>
    exact ih.imp (.commas hc ho) fun ih word hword => .commas hc ho (ih word hword)

theorem SlotRefusal.exists_cons {found : Lexeme} {expected : String}
    (h : SlotRefusal slots found expected) :
    ∃ first rest, slots = first :: rest ∧ (first.IsWord ∨ first.IsComma) := by
  cases h with
  | afterWord hw _ _ => exact ⟨_, _, rfl, .inl hw⟩
  | afterComma hc _ _ _ => exact ⟨_, _, rfl, .inr hc⟩
  | afterCommas hc _ _ _ => exact ⟨_, _, rfl, .inr hc⟩
  | wordComma hw _ _ => exact ⟨_, _, rfl, .inl hw⟩
  | commaWord hc _ _ => exact ⟨_, _, rfl, .inr hc⟩
  | commas hc _ _ => exact ⟨_, _, rfl, .inr hc⟩

/-- What a closing parenthesis stops ends in an even number of commas. -/
theorem SlotRefusal.not_ending {close : Lexeme} {expected : String}
    (h : SlotRefusal slots close expected) (hp : close.token = .closeParen) :
    ¬ (commasAtEnd slots = 0 ∨ commasAtEnd slots % 2 = 1) := by
  induction h with
  | afterWord _ _ hnot => exact absurd hp hnot
  | afterComma _ _ _ hnot => exact absurd hp hnot
  | afterCommas hc ho _ _ =>
    rw [commasAtEnd_of_all (by simp [hc, ho])]
    simp
  | wordComma hw _ _ ih =>
    rw [commasAtEnd_cons_of_not hw.not_isComma]
    exact ih hp
  | commaWord _ hw _ ih =>
    rw [commasAtEnd_cons_of_exists ⟨_, List.mem_cons_self, hw.not_isComma⟩]
    exact ih hp
  | commas hc ho refusal ih =>
    obtain ⟨_, _, rfl, _⟩ := refusal.exists_cons
    rw [commasAtEnd_two_commas hc ho (by simp)]
    exact ih hp

/-- Words and commas before a closing parenthesis fall into rounds, or are stopped by it. -/
theorem SlotRow.run_or_refusal {close : Lexeme} (hp : close.token = .closeParen) :
    ∀ {slots : List Lexeme}, SlotRow slots → slots ≠ [] →
      SlotRun slots ∨ SlotRefusal slots close Expected.slot
  | [], _, hne => absurd rfl hne
  | [first], h, _ => by
    rcases h.wordOrComma first (by simp) with hw | hc
    · exact .inl (.word hw)
    · exact .inl (.comma hc)
  | first :: second :: rest, h, _ => by
    have hadj := h.apart first second (List.prefix_append [first, second] rest).isInfix
    rcases h.wordOrComma first (by simp) with hf | hf <;>
      rcases h.wordOrComma second (by simp) with hs | hs
    · exact absurd ⟨hf, hs⟩ hadj
    · exact (h.of_cons.run_or_refusal hp (by simp)).imp (.wordComma hf hs) (.wordComma hf hs)
    · exact (h.of_cons.run_or_refusal hp (by simp)).imp (.commaWord hf hs) (.commaWord hf hs)
    · -- The parenthesis comes after the round of two commas if nothing else does.
      by_cases hne : rest = []
      · subst hne
        have hcomma : ¬ close.IsComma := by simp [IsComma, hp]
        have hword : ¬ close.IsWord := fun hw => hw.token_ne_close hp
        exact .inr (.afterCommas hf hs hcomma hword)
      · exact (h.of_cons.of_cons.run_or_refusal hp hne).imp (.commas hf hs) (.commas hf hs)

theorem SlotList.slotRun (h : SlotList slots) (hne : slots ≠ []) : SlotRun slots := by
  have hclose : (⟨.closeParen, ")"⟩ : Lexeme).token = .closeParen := rfl
  rcases h.row.run_or_refusal hclose hne with run | refusal
  · exact run
  · exact absurd h.ending (refusal.not_ending hclose)

/-- What some lexemes that begin like a list of slots turn out to be. -/
inductive SlotCase (lexemes : List Lexeme) : Prop
  | run {slots : List Lexeme} {close : Lexeme} {post : List Lexeme} (run : SlotRun slots)
      (hc : close.token = .closeParen) (eq : lexemes = slots ++ close :: post)
  | refused {slots : List Lexeme} {found : Lexeme} {post : List Lexeme} {expected : String}
      (refusal : SlotRefusal slots found expected) (eq : lexemes = slots ++ found :: post)

/-- What extends runs and refusals by a lexeme in front extends both cases. -/
theorem SlotCase.cons
    (hrun : ∀ {rest : List Lexeme}, SlotRun (second :: rest) → SlotRun (first :: second :: rest))
    (hrefusal : ∀ {rest : List Lexeme} {found : Lexeme} {expected : String},
      SlotRefusal (second :: rest) found expected →
        SlotRefusal (first :: second :: rest) found expected)
    (h : SlotCase (second :: rest)) : SlotCase (first :: second :: rest) := by
  rcases h with ⟨run, hclose, eq⟩ | ⟨refusal, eq⟩
  · obtain ⟨_, _, rfl, _⟩ := run.exists_cons
    cases eq
    exact .run (hrun run) hclose rfl
  · obtain ⟨_, _, rfl, _⟩ := refusal.exists_cons
    cases eq
    exact .refused (hrefusal refusal) rfl

theorem SlotCase.commas {comma other : Lexeme} (hc : comma.IsComma) (ho : other.IsComma)
    (h : SlotCase rest) : SlotCase (comma :: other :: rest) := by
  rcases h with ⟨run, hclose, rfl⟩ | ⟨refusal, rfl⟩
  · exact .run (.commas hc ho run) hclose rfl
  · exact .refused (.commas hc ho refusal) rfl

/-- Lexemes that begin like a list of slots and end somewhere are a list up to a closing
parenthesis, or are refused at some lexeme. -/
theorem slot_cases : ∀ {lexemes : List Lexeme}, (∃ e ∈ lexemes, e.token = .endOfText) →
    (∃ first ∈ lexemes.head?, first.IsWord ∨ first.IsComma) → SlotCase lexemes
  | [], he, _ => by simp at he
  | [first], he, hs => by
    simp only [List.mem_singleton, exists_eq_left] at he
    simp [IsWord, IsComma, he] at hs
  | first :: second :: rest, he, hs => by
    have hs : first.IsWord ∨ first.IsComma := by simpa using hs
    have he : ∃ e ∈ second :: rest, e.token = .endOfText := by
      obtain ⟨e, hmem, htoken⟩ := he
      rcases List.mem_cons.1 hmem with rfl | hmem
      · simp [IsWord, IsComma, htoken] at hs
      · exact ⟨e, hmem, htoken⟩
    by_cases hclose : second.token = .closeParen
    · rcases hs with hw | hc
      · exact .run (.word hw) hclose rfl
      · exact .run (.comma hc) hclose rfl
    · rcases hs with hw | hc
      · by_cases hcomma : second.IsComma
        · exact .cons (.wordComma hw hcomma) (.wordComma hw hcomma)
            (slot_cases he ⟨second, rfl, .inr hcomma⟩)
        · exact .refused (.afterWord hw hcomma hclose) rfl
      · by_cases hword : second.IsWord
        · exact .cons (.commaWord hc hword) (.commaWord hc hword)
            (slot_cases he ⟨second, rfl, .inl hword⟩)
        · by_cases hcomma : second.IsComma
          · -- Two commas are one round, and what comes next need not be a slot.
            have he : ∃ e ∈ rest, e.token = .endOfText := by
              obtain ⟨e, hmem, htoken⟩ := he
              rcases List.mem_cons.1 hmem with rfl | hmem
              · simp [IsComma, htoken] at hcomma
              · exact ⟨e, hmem, htoken⟩
            cases rest with
            | nil => simp at he
            | cons third rest =>
              by_cases hthird : third.IsWord ∨ third.IsComma
              · exact .commas hc hcomma (slot_cases he ⟨third, rfl, hthird⟩)
              · have hnot := not_or.1 hthird
                exact .refused (.afterCommas hc hcomma hnot.2 hnot.1) rfl
          · exact .refused (.afterComma hc hcomma hword hclose) rfl

end Grammar

end Requirement

end LabelSelector
