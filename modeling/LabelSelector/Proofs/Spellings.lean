/-
LabelSelector.Proofs.Spellings — what can be built by hand is what can be written.

Whether a text can be a key or a value is decided twice, without a word about it in either place:
by the characters of the text when a requirement is built, and by the lexemes it falls into when it
is read. The two agree (`isIdentifier_iff_ofText`). A text that is no identifier may still be read,
only not as itself: a blank around a word is passed over, a sign in front of a value is read with
the sign before it, and a comma starts another requirement.

So a requirement can be built of a key alone, or of a key and a value, exactly when the text that
puts them together is parsed to that requirement (`build_ok_iff_parse`).
-/
import LabelSelector.Proofs.RoundTrip

namespace LabelSelector

open Text

namespace Lexeme

/-! ## 1. Identifiers and words -/

/-- A text is an identifier exactly when it is empty or falls into one word, which is the text
itself. -/
theorem isIdentifier_iff_ofText {text : String} :
    isIdentifier text = true ↔ text = "" ∨
      ∃ word : Lexeme, word.IsWord ∧ word.literal = text ∧
        ofText text.toList = [word, endOfText] := by
  constructor
  · intro h
    by_cases hempty : text = ""
    · exact .inl hempty
    · refine .inr ⟨Requirement.wordLexeme text, Requirement.isWord_wordLexeme text, rfl, ?_⟩
      rw [ofText_eq, Requirement.body_word hempty h]
      rfl
  · rintro (rfl | ⟨word, hword, rfl, htext⟩)
    · exact isIdentifier_empty
    · -- Whatever it was read from, the literal of a word holds word characters only.
      have hmem : word ∈ ofText word.literal.toList := by simp [htext]
      exact (Requirement.sound_ofText _ word hmem hword).2

end Lexeme

namespace Requirement

open Lexeme Grammar

variable {key value text : String} {operator : Operator} {values : ValueSet}
  {requirement : Requirement}

/-! ## 2. Requirements and the texts of their parts -/

/-- A text that spells parts wherever a requirement can be built of them is parsed to just that
requirement. -/
theorem build_ok_iff_parse
    (h : ∀ requirement, build key operator values = .ok requirement →
      Shape (body text.toList) key operator values) :
    build key operator values = .ok requirement ↔
      parse text = .ok [requirement] ∧ requirement.key = key ∧
        requirement.operator = operator ∧ requirement.values = values := by
  constructor
  · intro hbuild
    have shape := h requirement hbuild
    obtain ⟨rfl, rfl, rfl⟩ := build_eq_ok_iff.1 hbuild
    exact ⟨parse_of_selection (.inr (.single shape)), rfl, rfl, rfl⟩
  · intro hparts
    exact build_eq_ok_iff.2 hparts.2

/-- What a requirement is built of passed every check. -/
theorem build_ok_parts (h : build key operator values = .ok requirement) :
    (key ≠ "" ∧ isIdentifier key = true) ∧ (∀ value ∈ values, isIdentifier value = true) ∧
      operator.fault? values = none := by
  obtain ⟨rfl, rfl, rfl⟩ := build_eq_ok_iff.1 h
  exact requirement.sound_parts

theorem build_present_iff :
    build key .present .empty = .ok requirement ↔
      parse key = .ok [requirement] ∧ requirement.key = key ∧ requirement.operator = .present := by
  have shape : ∀ requirement, build key .present .empty = .ok requirement →
      Shape (body key.toList) key .present .empty := by
    intro requirement hbuild
    have hkey := (build_ok_parts hbuild).1
    rw [body_word hkey.1 hkey.2]
    exact .present (isWord_wordLexeme key)
  rw [build_ok_iff_parse shape]
  constructor
  · intro ⟨hparse, hkey, hoperator, _⟩
    exact ⟨hparse, hkey, hoperator⟩
  · intro ⟨hparse, hkey, hoperator⟩
    have hvalues := eq_empty_of_unwanted (.inl hoperator) requirement.sound_parts.2.2
    exact ⟨hparse, hkey, hoperator, hvalues⟩

theorem build_equality_iff {token : Token} (ho : EqualitySign token operator) :
    build key operator (.singleton value) = .ok requirement ↔
      parse (key ++ operator.sign ++ value) = .ok [requirement] ∧ requirement.key = key ∧
        requirement.operator = operator ∧ requirement.values = .singleton value := by
  apply build_ok_iff_parse
  intro requirement hbuild
  obtain ⟨hkey, hvalues, _⟩ := build_ok_parts hbuild
  exact shape_equality hkey ho (hvalues value (by simp))

/-- The checks on what a requirement is built of and the language of selectors agree: on what a word
is, on the texts that ask for a key, and on the texts that ask for a value of a key. That the key is
valid has to be supposed nowhere, since both sides see to it. -/
theorem build_iff_written :
    (∀ text, isIdentifier text = true ↔ text = "" ∨
      ∃ word : Lexeme, word.IsWord ∧ word.literal = text ∧
        ofText text.toList = [word, endOfText]) ∧
    (∀ key requirement, build key .present (.ofList []) = .ok requirement ↔
      parse key = .ok [requirement] ∧ requirement.key = key ∧
        requirement.operator = .present) ∧
    ∀ key value requirement, build key .equals (.ofList [value]) = .ok requirement ↔
      parse (key ++ "=" ++ value) = .ok [requirement] ∧ requirement.key = key ∧
        requirement.operator = .equals ∧ requirement.values = .ofList [value] :=
  ⟨fun _ => isIdentifier_iff_ofText, fun _ _ => build_present_iff,
    fun _ _ _ => build_equality_iff .equals⟩

/-- A blank before a word is read, but not as a part of it. -/
example : isIdentifier " k" = false ∧ parse " k" = parse "k" ∧ (parse " k").isOk := by
  decide +kernel

end Requirement

end LabelSelector
