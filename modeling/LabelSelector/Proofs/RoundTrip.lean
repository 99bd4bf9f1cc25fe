/-
LabelSelector.Proofs.RoundTrip — the canonical texts of requirements are parsed back to them.

A text that can be a key or a value has at most one lexeme, a word (`body_word`), and the texts of
a list of values joined by commas have the lexemes of a list of slots with just these texts
(`slotTexts_slotsOf`). So the canonical text of a requirement has a form of the grammar, and that
form spells the requirement (`spells_text`). Commas join such texts without touching their lexemes,
and the parser accepts what is listed (`parse_textAll`).
-/
import LabelSelector.Proofs.Language
import LabelSelector.Requirement.Printer
import Mathlib.Data.List.Basic

namespace LabelSelector

namespace Requirement

open Lexeme Grammar Text

/-! ## 1. What a requirement is made of -/

/-- The parts of a requirement passed every check. -/
theorem sound_parts (requirement : Requirement) :
    (requirement.key ≠ "" ∧ isIdentifier requirement.key = true) ∧
      (∀ value ∈ requirement.values, isIdentifier value = true) ∧
      requirement.operator.fault? requirement.values = none := by
  have h := requirement.sound
  unfold fault? at h
  split at h
  · cases h
  · rename_i hk
    split at h
    · cases h
    · rename_i hv
      rw [List.find?_eq_none] at hv
      refine ⟨by simpa using hk, ?_, h⟩
      intro value hmem
      simpa using hv value hmem

/-- What the operators with a sign leave of their values. -/
theorem eq_singleton_of_equality {token : Token} {operator : Operator} {values : ValueSet}
    (ho : EqualitySign token operator) (h : operator.fault? values = none) :
    ∃ value, values = .singleton value := by
  have hsize : values.size = 1 := by
    cases ho <;> simpa [Operator.fault?] using h
  obtain ⟨list, sorted⟩ := values
  obtain ⟨value, rfl⟩ := List.length_eq_one_iff.1 hsize
  exact ⟨value, rfl⟩

theorem eq_singleton_of_comparison {token : Token} {operator : Operator} {values : ValueSet}
    (ho : ComparisonSign token operator) (h : operator.fault? values = none) :
    ∃ value, values = .singleton value ∧ (int64? value).isSome := by
  obtain ⟨list, sorted⟩ := values
  match list, sorted with
  | [], _ => cases ho <;> simp [Operator.fault?] at h
  | [bound], _ =>
    refine ⟨bound, rfl, ?_⟩
    rw [Option.isSome_iff_ne_none]
    cases ho <;> simpa [Operator.fault?] using h
  | _ :: _ :: _, _ => cases ho <;> simp [Operator.fault?] at h

theorem isEmpty_of_membership {token : Token} {operator : Operator} {values : ValueSet}
    (ho : MembershipWord token operator) (h : operator.fault? values = none) :
    values.isEmpty = false := by
  cases ho <;> simpa [Operator.fault?] using h

/-- An operator that takes no values has none. -/
theorem eq_empty_of_unwanted {operator : Operator} {values : ValueSet}
    (ho : operator = .present ∨ operator = .absent) (h : operator.fault? values = none) :
    values = .empty := by
  have hempty : values.isEmpty = true := by
    rcases ho with rfl | rfl <;> simpa [Operator.fault?] using h
  obtain ⟨list, sorted⟩ := values
  have hlist : list = [] := List.isEmpty_iff.1 hempty
  subst hlist
  rfl

/-! ## 2. Words -/

/-- The lexeme of a word. -/
def wordLexeme (text : String) : Lexeme :=
  ⟨Token.ofWord text.toList, text⟩

theorem isWord_wordLexeme (text : String) : (wordLexeme text).IsWord :=
  ofWord_cases text.toList

theorem body_word {text : String} (hne : text ≠ "") (h : isIdentifier text = true) :
    body text.toList = [wordLexeme text] := by
  have hl : Literal text.toList (Token.ofWord text.toList) := by
    refine .word ?_ (isIdentifier_iff.1 h)
    simpa using hne
  rw [body_literal hl, String.ofList_toList]
  rfl

/-- A word character and another one never belong to one literal. -/
theorem joins_eq_false {a b : Char} (h : isWordChar a ≠ isWordChar b) : joins a b = false := by
  cases ha : isWordChar a with
  | true =>
    have hb : isWordChar b = false := by simpa [ha] using h
    have hequals : a ≠ '=' := by
      rintro rfl
      exact absurd ha (by decide)
    have hbang : a ≠ '!' := by
      rintro rfl
      exact absurd ha (by decide)
    simp [joins, hb, hequals, hbang]
  | false =>
    have hb : isWordChar b = true := by simpa [ha] using h
    have hequals : b ≠ '=' := by
      rintro rfl
      exact absurd hb (by decide)
    simp [joins, ha, hequals]

/-- A symbol has its own lexeme before a word. -/
theorem body_symbol_word {symbol word : List Char} {token : Token}
    (hs : (symbol, token) ∈ Token.symbols) (hw : ∀ c ∈ word, isWordChar c = true) :
    body (symbol ++ word) = ⟨token, String.ofList symbol⟩ :: body word := by
  have hcut : body (symbol ++ word) = body symbol ++ body word := by
    apply body_append_of_seam
    intro a ha b hb
    apply joins_eq_false
    have hsymbol : isSymbol a = true :=
      Token.isSymbol_of_mem_symbols _ hs a (List.mem_of_getLast? ha)
    rw [hw b (List.mem_of_mem_head? hb)]
    simp [isWordChar, hsymbol]
  rw [hcut, body_literal (.symbol hs), List.singleton_append]

/-- Between words a symbol has its own lexeme. -/
theorem body_word_symbol_word {word symbol rest : List Char} {token : Token}
    (hw : ∀ c ∈ word, isWordChar c = true) (hs : (symbol, token) ∈ Token.symbols)
    (hr : ∀ c ∈ rest, isWordChar c = true) :
    body (word ++ (symbol ++ rest)) = body word ++ ⟨token, String.ofList symbol⟩ :: body rest := by
  rw [← body_symbol_word hs hr]
  apply body_append_of_seam
  intro a ha b hb
  apply joins_eq_false
  have hmem : b ∈ symbol := by
    obtain ⟨c, tail, rfl⟩ := List.exists_cons_of_ne_nil (Token.ne_nil_of_mem_symbols _ hs)
    have hb : c = b := by simpa using hb
    simp [hb]
  rw [hw a (List.mem_of_getLast? ha)]
  simp [isWordChar, Token.isSymbol_of_mem_symbols _ hs b hmem]

/-! ## 3. Values between commas -/

/-- The lexemes of a value: a word, or none. -/
def valueLexemes (value : String) : List Lexeme :=
  if value = "" then [] else [wordLexeme value]

/-- The lexemes of some values joined by commas. -/
def slotsOf : List String → List Lexeme
  | [] => []
  | [value] => valueLexemes value
  | value :: next :: rest => valueLexemes value ++ ⟨.comma, ","⟩ :: slotsOf (next :: rest)

theorem body_value {value : String} (h : isIdentifier value = true) :
    body value.toList = valueLexemes value := by
  unfold valueLexemes
  split
  · rename_i hempty
    subst hempty
    exact body_nil
  · rename_i hne
    exact body_word hne h

theorem body_intercalate {values : List String} (h : ∀ value ∈ values, isIdentifier value = true) :
    body (",".intercalate values).toList = slotsOf values := by
  induction values with
  | nil => exact body_nil
  | cons value rest ih =>
    have ih := ih fun other hmem => h other (List.mem_cons_of_mem _ hmem)
    have hvalue := body_value (h value List.mem_cons_self)
    cases rest with
    | nil =>
      rw [String.intercalate_singleton, hvalue]
      rfl
    | cons next rest =>
      have hcomma : ",".toList = [','] := rfl
      rw [String.intercalate_cons_cons, String.toList_append, String.toList_append, hcomma,
        List.append_assoc, List.singleton_append, body_comma, hvalue, ih]
      rfl

/-- The slots of values joined by commas have the values as their texts. -/
theorem slotTexts_slotsOf {values : List String} (hne : values ≠ []) :
    slotTexts (slotsOf values) = values := by
  induction values with
  | nil => exact absurd rfl hne
  | cons value rest ih =>
    cases rest with
    | nil =>
      by_cases hempty : value = ""
      · subst hempty
        rfl
      · rw [slotsOf, valueLexemes, if_neg hempty, slotTexts_word (isWord_wordLexeme value)]
        rfl
    | cons next rest =>
      have ih := ih (by simp)
      by_cases hempty : value = ""
      · rw [slotsOf, valueLexemes, if_pos hempty, List.nil_append, slotTexts_comma isComma_comma,
          ih, hempty]
      · rw [slotsOf, valueLexemes, if_neg hempty, List.singleton_append,
          slotTexts_word_comma (isWord_wordLexeme value) isComma_comma, ih]
        rfl

/-- Commas keep the values apart. -/
theorem slotRow_slotsOf (values : List String) : SlotRow (slotsOf values) := by
  induction values with
  | nil => exact .nil
  | cons value rest ih =>
    cases rest with
    | nil =>
      rw [slotsOf, valueLexemes]
      split
      · exact .nil
      · exact SlotRow.nil.cons (.inl (isWord_wordLexeme value)) (by simp)
    | cons next rest =>
      have row := ih.comma_cons isComma_comma
      rw [slotsOf, valueLexemes]
      split
      · exact row
      · exact row.cons_comma (.inl (isWord_wordLexeme value)) isComma_comma

theorem slotsOf_concat (front : List String) (last : String) :
    ∃ pre, slotsOf (front ++ [last]) = pre ++ valueLexemes last := by
  induction front with
  | nil => exact ⟨[], rfl⟩
  | cons value front ih =>
    obtain ⟨pre, heq⟩ := ih
    obtain ⟨next, rest, hcons⟩ := List.exists_cons_of_ne_nil (List.concat_ne_nil last front)
    refine ⟨valueLexemes value ++ ⟨.comma, ","⟩ :: pre, ?_⟩
    rw [List.cons_append, hcons, slotsOf, ← hcons, heq, List.append_assoc, List.cons_append]

/-- The values of a set joined by commas are a list of slots: the empty text is less than any other,
so no comma stands at the end. -/
theorem slotList_slotsOf (values : ValueSet) : SlotList (slotsOf values.toList) := by
  refine (slotRow_slotsOf values.toList).slotList (.inl ?_)
  obtain ⟨list, sorted⟩ := values
  show commasAtEnd (slotsOf list) = 0
  rcases List.eq_nil_or_concat' list with rfl | ⟨front, last, rfl⟩
  · rfl
  · by_cases hlast : last = ""
    · have hfront : front = [] := by
        rw [List.eq_nil_iff_forall_not_mem]
        intro value hmem
        have hlt := (List.pairwise_append.1 sorted).2.2 value hmem last (by simp)
        rw [hlast] at hlt
        exact List.not_lt_nil value.toList hlt
      rw [hfront, hlast]
      rfl
    · obtain ⟨pre, heq⟩ := slotsOf_concat front last
      rw [heq, valueLexemes, if_neg hlast]
      simp [commasAtEnd, (isWord_wordLexeme last).not_isComma]

/-! ## 4. The canonical text of a requirement -/

theorem body_bang {key : String} (hk : key ≠ "" ∧ isIdentifier key = true) :
    body ("!" ++ key).toList = [⟨.bang, "!"⟩, wordLexeme key] := by
  have hbang : ("!" ++ key).toList = ['!'] ++ key.toList := by
    rw [String.toList_append]
    rfl
  have hmem : (['!'], Token.bang) ∈ Token.symbols := by decide
  rw [hbang, body_symbol_word hmem (isIdentifier_iff.1 hk.2), body_word hk.1 hk.2]

theorem body_signed {key sign value : String} {token : Token}
    (hk : key ≠ "" ∧ isIdentifier key = true) (hs : (sign.toList, token) ∈ Token.symbols)
    (hv : isIdentifier value = true) :
    body (key ++ sign ++ value).toList = wordLexeme key :: ⟨token, sign⟩ :: valueLexemes value := by
  rw [String.toList_append, String.toList_append, List.append_assoc,
    body_word_symbol_word (isIdentifier_iff.1 hk.2) hs (isIdentifier_iff.1 hv),
    body_word hk.1 hk.2, body_value hv, String.ofList_toList]
  rfl

theorem body_membership {key word : String} {values : List String}
    (hk : key ≠ "" ∧ isIdentifier key = true) (hw : word ≠ "" ∧ isIdentifier word = true)
    (hv : ∀ value ∈ values, isIdentifier value = true) :
    body (key ++ " " ++ word ++ " " ++ parenthesized values).toList =
      wordLexeme key :: wordLexeme word :: ⟨.openParen, "("⟩ ::
        (slotsOf values ++ [⟨.closeParen, ")"⟩]) := by
  have hparen : body (parenthesized values).toList =
      ⟨.openParen, "("⟩ :: (slotsOf values ++ [⟨.closeParen, ")"⟩]) := by
    have htext : (parenthesized values).toList =
        [] ++ '(' :: ((",".intercalate values).toList ++ [')']) := by
      rw [parenthesized, String.toList_append, String.toList_append]
      rfl
    rw [htext, body_separator (by decide) (by decide) (by decide), body_open, body_append_close,
      body_intercalate hv, body_nil]
    rfl
  have htext : (key ++ " " ++ word ++ " " ++ parenthesized values).toList =
      key.toList ++ ' ' :: (word.toList ++ ' ' :: (parenthesized values).toList) := by
    simp only [String.toList_append, List.append_assoc]
    rfl
  rw [htext, body_space, body_space, body_word hk.1 hk.2, body_word hw.1 hw.2, hparen]
  rfl

theorem shape_equality {key value : String} {token : Token} {operator : Operator}
    (hk : key ≠ "" ∧ isIdentifier key = true) (ho : EqualitySign token operator)
    (hv : isIdentifier value = true) :
    Shape (body (key ++ operator.sign ++ value).toList) key operator (.singleton value) := by
  have hsign : (operator.sign.toList, token) ∈ Token.symbols := by
    cases ho <;> decide
  rw [body_signed hk hsign hv, valueLexemes]
  split
  · rename_i hempty
    subst hempty
    exact Shape.blank (isWord_wordLexeme key) ho
  · exact .closed (Closed.equality (isWord_wordLexeme key) ho (isWord_wordLexeme value))

theorem shape_comparison {key value : String} {token : Token} {operator : Operator}
    (hk : key ≠ "" ∧ isIdentifier key = true) (ho : ComparisonSign token operator)
    (hv : isIdentifier value = true) (hi : (int64? value).isSome) :
    Shape (body (key ++ operator.sign ++ value).toList) key operator (.singleton value) := by
  have hsign : (operator.sign.toList, token) ∈ Token.symbols := by
    cases ho <;> decide
  have hne : value ≠ "" := by
    rintro rfl
    rw [Parser.int64?_blank] at hi
    cases hi
  rw [body_signed hk hsign hv, valueLexemes, if_neg hne]
  exact .closed (Closed.comparison (isWord_wordLexeme key) ho (isWord_wordLexeme value) hi)

/-- The word of an operator that takes a list is read as that operator. -/
theorem membershipWord_sign {token : Token} {operator : Operator}
    (ho : MembershipWord token operator) :
    (operator.sign ≠ "" ∧ isIdentifier operator.sign = true) ∧
      MembershipWord (wordLexeme operator.sign).token operator := by
  have htoken : Token.ofWord operator.sign.toList = token := by
    cases ho <;> decide
  refine ⟨by cases ho <;> decide, ?_⟩
  show MembershipWord (Token.ofWord operator.sign.toList) operator
  rw [htoken]
  exact ho

theorem shape_membership {key : String} {token : Token} {operator : Operator}
    {slots : List String} (hk : key ≠ "" ∧ isIdentifier key = true)
    (ho : MembershipWord token operator) (hv : ∀ slot ∈ slots, isIdentifier slot = true)
    (hs : SlotList (slotsOf slots)) (hne : slots ≠ []) :
    Shape (body (key ++ " " ++ operator.sign ++ " " ++ parenthesized slots).toList) key operator
      (.ofList slots) := by
  obtain ⟨hsign, hword⟩ := membershipWord_sign ho
  have hopen : (⟨.openParen, "("⟩ : Lexeme).token = .openParen := rfl
  have hclose : (⟨.closeParen, ")"⟩ : Lexeme).token = .closeParen := rfl
  have hclosed := Closed.membership (isWord_wordLexeme key) hword hopen hs hclose
  rw [slotTexts_slotsOf hne] at hclosed
  rw [body_membership hk hsign hv]
  exact .closed hclosed

/-- The canonical text of a requirement has a form of the grammar, with just its parts. -/
theorem spells_text (requirement : Requirement) :
    Spells (body requirement.text.toList) requirement := by
  obtain ⟨hk, hv, ho⟩ := requirement.sound_parts
  obtain ⟨key, operator, values, sound⟩ := requirement
  -- Operators of one kind are written alike and differ in their signs only.
  have equality : ∀ {token : Token}, EqualitySign token operator →
      Shape (body (key ++ operator.sign ++ values.toList.head?.getD "").toList) key operator
        values := by
    intro token hs
    obtain ⟨value, rfl⟩ := eq_singleton_of_equality hs ho
    exact shape_equality hk hs (hv value (by simp))
  have comparison : ∀ {token : Token}, ComparisonSign token operator →
      Shape (body (key ++ operator.sign ++ values.toList.head?.getD "").toList) key operator
        values := by
    intro token hs
    obtain ⟨value, rfl, hi⟩ := eq_singleton_of_comparison hs ho
    exact shape_comparison hk hs (hv value (by simp)) hi
  have membership : ∀ {token : Token}, MembershipWord token operator →
      Shape (body (key ++ " " ++ operator.sign ++ " " ++ parenthesized values.toList).toList) key
        operator values := by
    intro token hs
    have hempty := isEmpty_of_membership hs ho
    have hne : values.toList ≠ [] := by
      intro h
      rw [ValueSet.isEmpty, h] at hempty
      cases hempty
    have shape := shape_membership hk hs hv (slotList_slotsOf values) hne
    rwa [ValueSet.ofList_toList] at shape
  cases operator with
  | absent =>
    obtain rfl := eq_empty_of_unwanted (.inr rfl) ho
    show Shape (body ("!" ++ key).toList) key .absent .empty
    rw [body_bang hk]
    exact .closed (Closed.absent rfl (isWord_wordLexeme key))
  | present =>
    obtain rfl := eq_empty_of_unwanted (.inl rfl) ho
    show Shape (body key.toList) key .present .empty
    rw [body_word hk.1 hk.2]
    exact Shape.present (isWord_wordLexeme key)
  | isIn => exact membership .isIn
  | notIn => exact membership .notIn
  | equals => exact equality .equals
  | doubleEquals => exact equality .doubleEquals
  | notEquals => exact equality .notEquals
  | greaterThan => exact comparison .greater
  | lessThan => exact comparison .less

/-! ## 5. Canonical texts joined by commas -/

theorem listed_textAll {requirements : List Requirement} (hne : requirements ≠ []) :
    Listed (body (textAll requirements).toList) requirements := by
  induction requirements with
  | nil => exact absurd rfl hne
  | cons requirement rest ih =>
    have spells := spells_text requirement
    cases rest with
    | nil =>
      have htext : textAll [requirement] = requirement.text := String.intercalate_singleton
      rw [htext]
      exact .single spells
    | cons next rest =>
      have htext : (textAll (requirement :: next :: rest)).toList =
          requirement.text.toList ++ ',' :: (textAll (next :: rest)).toList := by
        rw [textAll, List.map_cons, List.map_cons, String.intercalate_cons_cons,
          String.toList_append, String.toList_append, List.append_assoc]
        rfl
      rw [htext, body_comma]
      exact .more spells isComma_comma (ih (by simp))

/-- The canonical texts of some requirements are a selection that lists just them. -/
theorem selection_textAll (requirements : List Requirement) :
    Selection (body (textAll requirements).toList) requirements := by
  by_cases hne : requirements = []
  · subst hne
    exact .inl ⟨body_nil, rfl⟩
  · exact .inr (listed_textAll hne)

/-- Parsing the canonical texts of some requirements finds them again, in order and all of
them. -/
theorem parse_textAll (requirements : List Requirement) :
    parse (textAll requirements) = .ok requirements := by
  apply parse_of_selection
  exact selection_textAll requirements

end Requirement

end LabelSelector
