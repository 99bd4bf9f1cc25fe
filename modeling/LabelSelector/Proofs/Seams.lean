/-
LabelSelector.Proofs.Seams — where two texts can be put together, and where blanks do not matter.

At the seam of two texts a literal is read on in two cases only: a word meets a word (`WordsMeet`),
or a sign `=` or `!` that is a lexeme by itself meets the character `=` (`SignsMeet`). The second
cannot be told from the characters at the seam, since `!==` ends in such a sign and `!=` does not.
Together these are exactly the seams at which something is read on (`glued_iff`).

Everywhere else blanks can be put in, taken out or exchanged without touching a lexeme
(`Respaced`), and between blanks on both sides even these two cases do not count. Parsing depends on
the lexemes of a text alone (`parse_congr`), so none of this changes what a text comes to.
-/
import LabelSelector.Proofs.Language
import Mathlib.Logic.Relation

namespace LabelSelector

namespace Lexeme

open Text

variable {before after blanks : List Char} {lexeme : Lexeme}

/-! ## 1. What is read on across a seam -/

/-- A word ends one text and the next begins with a word. -/
def WordsMeet (before after : List Char) : Prop :=
  ∃ a ∈ before.getLast?, ∃ b ∈ after.head?, isWordChar a = true ∧ isWordChar b = true

/-- The last lexeme of one text is a sign that may be the beginning of a longer one, it stands at
the end, and the next text begins with `=`. -/
def SignsMeet (before after : List Char) : Prop :=
  (∃ lexeme ∈ (body before).getLast?, (lexeme.literal = "=" ∨ lexeme.literal = "!") ∧
    lexeme.literal.toList <:+ before) ∧ after.head? = some '='

/-- A text that does not end in a blank ends in a lexeme. -/
theorem exists_last {a : Char} (ha : a ∈ before.getLast?) (hb : isBlank a = false) :
    ∃ lexeme ∈ (body before).getLast?, lexeme.literal.toList <:+ before := by
  induction before using text_induction with
  | blanks blanks hblank =>
    rw [hblank a (List.mem_of_getLast? ha)] at hb
    cases hb
  | lexeme blanks literal token rest hblank hl he ih =>
    rw [body_lexeme hblank hl he, List.getLast?_cons]
    by_cases hne : rest = []
    · subst hne
      exact ⟨⟨token, String.ofList literal⟩, by simp, by simp⟩
    · have hlast : a ∈ rest.getLast? := by
        rwa [← List.append_assoc, List.getLast?_append,
          Option.or_of_isSome (by simp [hne])] at ha
      obtain ⟨lexeme, hmem, hsuffix⟩ := ih hlast
      refine ⟨lexeme, ?_, hsuffix.trans ((List.suffix_append _ _).trans (List.suffix_append _ _))⟩
      rw [hmem]
      rfl

/-- A literal that ends in a word character is a word. -/
theorem Literal.all_isWordChar {literal : List Char} {token : Token} (hl : Literal literal token)
    {a : Char} (ha : a ∈ literal.getLast?) (hw : isWordChar a = true) :
    literal.all isWordChar = true := by
  cases hl with
  | word _ all => exact List.all_eq_true.2 all
  | symbol mem =>
    have hs := Token.isSymbol_of_mem_symbols _ mem a (List.mem_of_getLast? ha)
    rw [isSymbol_eq_false_of_isWordChar hw] at hs
    cases hs

theorem WordsMeet.glued (h : WordsMeet before after) : Glued before after := by
  obtain ⟨a, ha, b, hb, hwa, hwb⟩ := h
  obtain ⟨lexeme, hlast, hsuffix⟩ := exists_last ha (isBlank_eq_false_of_isWordChar hwa)
  have hl := literal_of_mem_body (List.mem_of_getLast? hlast)
  refine ⟨lexeme, hlast, hsuffix, fun hends => ?_⟩
  have ha' : a ∈ lexeme.literal.toList.getLast? := by
    rw [List.getLast?_eq_some_getLast hl.ne_nil, hsuffix.getLast hl.ne_nil]
    rwa [List.getLast?_eq_some_getLast] at ha
  have hrun := hends b hb
  simp [runsOn, hl.all_isWordChar ha' hwa, hwb] at hrun

theorem SignsMeet.glued (h : SignsMeet before after) : Glued before after := by
  obtain ⟨⟨lexeme, hlast, hsign, hsuffix⟩, hequals⟩ := h
  refine ⟨lexeme, hlast, hsuffix, fun hends => ?_⟩
  have hrun := hends '=' hequals
  rcases hsign with hsign | hsign <;> simp [runsOn, hsign] at hrun

/-- Something is read on exactly where words meet or signs do. -/
theorem glued_iff : Glued before after ↔ WordsMeet before after ∨ SignsMeet before after := by
  refine ⟨?_, fun h => h.elim WordsMeet.glued SignsMeet.glued⟩
  rintro ⟨lexeme, hlast, hsuffix, hrun⟩
  obtain ⟨c, hc, hrun⟩ : ∃ c ∈ after.head?, runsOn lexeme.literal.toList c = true := by
    simpa [Ends] using hrun
  rw [runsOn, Bool.or_eq_true, Bool.and_eq_true, Bool.and_eq_true, List.all_eq_true,
    decide_eq_true_eq, Bool.or_eq_true, decide_eq_true_eq, decide_eq_true_eq] at hrun
  rcases hrun with ⟨hword, hwc⟩ | ⟨rfl, hsign⟩
  · have hne := (literal_of_mem_body (List.mem_of_getLast? hlast)).ne_nil
    have hbefore : before ≠ [] := by
      rintro rfl
      exact hne (List.suffix_nil.1 hsuffix)
    refine .inl ⟨before.getLast hbefore, List.getLast?_eq_some_getLast hbefore, c, hc, ?_, hwc⟩
    rw [← hsuffix.getLast hne]
    exact hword _ (List.getLast_mem hne)
  · refine .inr ⟨⟨lexeme, hlast, ?_, hsuffix⟩, hc⟩
    rw [← String.toList_inj, ← String.toList_inj]
    exact hsign

/-! ## 2. Blanks at a seam -/

/-- Where there are blanks at a seam, or nothing is read on across it, both texts keep their
lexemes. -/
theorem body_append_blanks_append (hb : Blank blanks)
    (h : blanks ≠ [] ∨ ¬ (WordsMeet before after ∨ SignsMeet before after)) :
    body (before ++ (blanks ++ after)) = body before ++ body after := by
  by_cases hne : blanks = []
  · subst hne
    rw [List.nil_append, body_append_iff, glued_iff]
    simpa using h
  · have hseam : body (before ++ (blanks ++ after)) = body before ++ body (blanks ++ after) := by
      apply body_append_of_seam
      intro a _ b hmem
      obtain ⟨c, rest, rfl⟩ := List.exists_cons_of_ne_nil hne
      obtain rfl : c = b := by simpa using hmem
      have hblank : isBlank c = true := hb c (by simp)
      have hequals : c ≠ '=' := by
        rintro rfl
        exact absurd hblank (by decide)
      simp [joins, isWordChar, hblank, hequals]
    rw [hseam, body_blanks_append hb]

/-- Two texts that differ in the blanks at one seam. Where there are none on one side, nothing may
be read on across the seam. -/
inductive Respaced : String → String → Prop
  | at_seam {before after blanks blanks' : String} (hb : Blank blanks.toList)
      (hb' : Blank blanks'.toList)
      (seam : (blanks ≠ "" ∧ blanks' ≠ "") ∨
        ¬ (WordsMeet before.toList after.toList ∨ SignsMeet before.toList after.toList)) :
      Respaced (before ++ blanks ++ after) (before ++ blanks' ++ after)

theorem Respaced.body_eq {text other : String} (h : Respaced text other) :
    body text.toList = body other.toList := by
  obtain ⟨hb, hb', seam⟩ := h
  simp only [String.toList_append, List.append_assoc]
  rw [body_append_blanks_append hb (seam.imp_left fun hne => by simpa using hne.1),
    body_append_blanks_append hb' (seam.imp_left fun hne => by simpa using hne.2)]

/-- Texts with the same lexemes come to the same. -/
theorem parse_congr {text other : String} (h : body text.toList = body other.toList) :
    Requirement.parse text = Requirement.parse other := by
  apply Requirement.parse_of_verdict
  rw [ofText_eq, h, ← ofText_eq]
  exact Requirement.verdict_parse other

/-- Two texts put together have the lexemes of the first and then those of the second, if there are
blanks between them or else exactly if neither words nor signs meet. So blanks can be put in, taken
out and exchanged wherever that is not the case, any number of times, at the start and at the end
in particular, and parsing comes to the same requirements or the same fault. -/
theorem body_append_iff_not_meet :
    (∀ before blanks after : String, Blank blanks.toList → blanks ≠ "" →
        body (before ++ blanks ++ after).toList = body before.toList ++ body after.toList) ∧
      (∀ before after : String,
        body (before ++ after).toList = body before.toList ++ body after.toList ↔
          ¬ WordsMeet before.toList after.toList ∧ ¬ SignsMeet before.toList after.toList) ∧
      (∀ text other : String, Relation.ReflTransGen Respaced text other →
        Requirement.parse text = Requirement.parse other) ∧
      ∀ text leading trailing : String, Blank leading.toList → Blank trailing.toList →
        Requirement.parse (leading ++ text ++ trailing) = Requirement.parse text := by
  refine ⟨?_, ?_, ?_, ?_⟩
  · intro before blanks after hb hne
    rw [String.toList_append, String.toList_append, List.append_assoc]
    exact body_append_blanks_append hb (.inl (by simpa using hne))
  · intro before after
    rw [String.toList_append, body_append_iff, glued_iff, not_or]
  · intro text other h
    apply parse_congr
    induction h with
    | refl => rfl
    | tail _ respaced ih => rw [ih, respaced.body_eq]
  · intro text leading trailing hl ht
    apply parse_congr
    have hend : ¬ (WordsMeet text.toList [] ∨ SignsMeet text.toList []) := by
      simp [WordsMeet, SignsMeet]
    have htrailing := body_append_blanks_append ht (.inr hend)
    simp only [List.append_nil, body_nil] at htrailing
    rw [String.toList_append, String.toList_append, List.append_assoc, body_blanks_append hl,
      htrailing]

/-- Whether a `=` is read on depends on how many signs stand before it, and blanks around a sign
make no difference. -/
theorem body_append_iff_not_meet_signs :
    body ("a!=" ++ "=b").toList = body "a!=".toList ++ body "=b".toList ∧
      body ("a!==" ++ "=b").toList ≠ body "a!==".toList ++ body "=b".toList ∧
      Requirement.parse "a !=\u3000b" = Requirement.parse "a!=b" := by
  obtain ⟨-, hseam, hrespaced, -⟩ := body_append_iff_not_meet
  have hsign : body ['a', '!', '='] = [⟨.identifier, "a"⟩, ⟨.notEquals, "!="⟩] := by decide +kernel
  have hsigns : body ['a', '!', '=', '='] =
      [⟨.identifier, "a"⟩, ⟨.notEquals, "!="⟩, ⟨.equals, "="⟩] := by
    decide +kernel
  refine ⟨(hseam "a!=" "=b").2 ⟨?_, ?_⟩, fun h => ((hseam "a!==" "=b").1 h).2 ?_, hrespaced _ _ ?_⟩
  · simp [WordsMeet]
    decide
  · simp [SignsMeet, hsign]
  · simp [SignsMeet, hsigns]
    decide
  · have hfirst : Respaced ("a" ++ " " ++ "!=\u3000b") ("a" ++ "" ++ "!=\u3000b") := by
      refine .at_seam ?_ blank_nil (.inr ?_)
      · simp [Blank]
        decide
      · simp [WordsMeet, SignsMeet]
        decide
    have hsecond : Respaced ("a!=" ++ "\u3000" ++ "b") ("a!=" ++ "" ++ "b") := by
      refine .at_seam ?_ blank_nil (.inr ?_)
      · simp [Blank]
        decide
      · simp [WordsMeet, SignsMeet]
        decide
    exact .tail (.single hfirst) hsecond

end Lexeme

end LabelSelector
