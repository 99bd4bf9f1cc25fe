/-
LabelSelector.Proofs.Lexing — where a text can be cut without changing its lexemes.

A `Literal` is what one lexeme can be read from: a word, or an entry of the table of symbols. A
text is blanks, or blanks and a literal and a text (`text_induction`), and `body`, which is what
a text holds before its end, follows that shape (`body_blanks`, `body_lexeme`).

Every lexeme of a text marks a place where the text can be cut, before the lexeme and after it
(`exists_cut`). In the other direction, a literal is read as far as it goes, so the lexemes of two
texts put together are those of the first and then those of the second unless the first ends in a
literal that is read on into the second (`Glued`, `body_append_iff`). That happens in two ways only
(`runsOn`): a word meets a word character, or the literal `=` or `!` meets the character `=`. Both
can be seen from the two characters at the seam (`body_append_of_seam`).
-/
import LabelSelector.Lexeme
import Mathlib.Data.List.TakeWhile

namespace LabelSelector

namespace Lexeme

open Text

/-! ## 1. Literals -/

/-- The characters that one lexeme is read from, with its kind. -/
inductive Literal : List Char → Token → Prop
  | word {chars : List Char} (ne : chars ≠ []) (all : ∀ c ∈ chars, isWordChar c = true) :
      Literal chars (Token.ofWord chars)
  | symbol {chars : List Char} {token : Token} (mem : (chars, token) ∈ Token.symbols) :
      Literal chars token

/-- Whether a literal is read on into a character that follows it. -/
def runsOn (literal : List Char) (c : Char) : Bool :=
  (literal.all isWordChar && isWordChar c) ||
    (c = '=' && (literal = ['='] || literal = ['!']))

/-- What follows a literal is no part of it. -/
def Ends (literal rest : List Char) : Prop :=
  ∀ c ∈ rest.head?, runsOn literal c = false

theorem ends_nil (literal : List Char) : Ends literal [] := by
  intro c hc
  simp at hc

/-- What is no part of a literal before a longer text is none before a beginning of it. -/
theorem Ends.of_append {literal front rest : List Char} (h : Ends literal (front ++ rest)) :
    Ends literal front := by
  intro c hc
  cases front with
  | nil => simp at hc
  | cons d front => exact h c hc

/-- A word that ends is followed by no word character. -/
theorem Ends.isWordChar_eq_false {word rest : List Char} (h : Ends word rest)
    (all : ∀ c ∈ word, isWordChar c = true) : ∀ c ∈ rest.head?, isWordChar c = false := by
  intro c hc
  have hrun := h c hc
  rw [runsOn, List.all_eq_true.2 all, Bool.true_and, Bool.or_eq_false_iff] at hrun
  exact hrun.1

theorem Literal.ne_nil {literal : List Char} {token : Token} (h : Literal literal token) :
    literal ≠ [] := by
  cases h with
  | word ne _ => exact ne
  | symbol mem => exact Token.ne_nil_of_mem_symbols _ mem

/-- A literal is made of word characters or of symbols, never of blanks. -/
theorem Literal.not_blank {literal : List Char} {token : Token} (h : Literal literal token) :
    ∀ c ∈ literal, isBlank c = false := by
  intro c hc
  cases h with
  | word _ all => exact isBlank_eq_false_of_isWordChar (all c hc)
  | symbol mem =>
    exact isBlank_eq_false_of_isSymbol (Token.isSymbol_of_mem_symbols _ mem c hc)

theorem ofWord_cases (word : List Char) :
    Token.ofWord word = .identifier ∨ Token.ofWord word = .isIn ∨ Token.ofWord word = .notIn := by
  simp only [Token.ofWord, Token.keywords, List.lookup_cons, List.lookup_nil]
  split
  · simp
  · split <;> simp

theorem Literal.known {literal : List Char} {token : Token} (h : Literal literal token) :
    token ≠ .endOfText ∧ token ≠ .unknown := by
  cases h with
  | word _ _ =>
    rcases ofWord_cases literal with hw | hw | hw <;> rw [hw] <;> decide
  | symbol mem =>
    have table : ∀ entry ∈ Token.symbols, entry.2 ≠ .endOfText ∧ entry.2 ≠ .unknown := by decide
    exact table _ mem

/-- A literal that what follows is no part of is read whole. -/
theorem head_literal {literal rest : List Char} {token : Token} (h : Literal literal token)
    (he : Ends literal rest) : head (literal ++ rest) = (token, literal) := by
  cases h with
  | word ne all =>
    obtain ⟨c, tail, rfl⟩ := List.exists_cons_of_ne_nil ne
    have hs : isSymbol c = false := isSymbol_eq_false_of_isWordChar (all c (by simp))
    have hstop : rest.takeWhile isWordChar = [] := by
      cases rest with
      | nil => rfl
      | cons d rest =>
        rw [List.takeWhile_cons, he.isWordChar_eq_false all d rfl]
        rfl
    have hword : (c :: tail ++ rest).takeWhile isWordChar = c :: tail := by
      rw [List.takeWhile_append_of_pos all, hstop, List.append_nil]
    simp only [List.cons_append] at hword ⊢
    simp only [head, hs, hword]
    rfl
  | symbol mem =>
    simp only [Token.symbols, List.mem_cons, Prod.mk.injEq, List.not_mem_nil, or_false] at mem
    -- Only `=` and `!` have a longer literal to lose against, and then `=` follows.
    rcases mem with ⟨rfl, rfl⟩ | ⟨rfl, rfl⟩ | ⟨rfl, rfl⟩ | ⟨rfl, rfl⟩ | ⟨rfl, rfl⟩ | ⟨rfl, rfl⟩ |
      ⟨rfl, rfl⟩ | ⟨rfl, rfl⟩ | ⟨rfl, rfl⟩
    case inr.inr.inl | inr.inr.inr.inl =>
      cases rest with
      | nil => rfl
      | cons d rest =>
        have hd : d ≠ '=' := by
          rintro rfl
          have := he '=' (by simp)
          simp [runsOn] at this
        simp [head, isSymbol, symbols, Token.ofSymbols, Token.symbols, List.isPrefixOf, hd.symm]
    all_goals rfl

/-- A text that starts with no blank starts with a literal that ends. -/
theorem exists_literal {c : Char} (hb : isBlank c = false) (tail : List Char) :
    ∃ literal token rest, c :: tail = literal ++ rest ∧ Literal literal token ∧
      Ends literal rest := by
  cases hs : isSymbol c with
  | false =>
    have hw : isWordChar c = true := isWordChar_of_not hb hs
    refine ⟨(c :: tail).takeWhile isWordChar, _, (c :: tail).dropWhile isWordChar, ?_, .word ?_ ?_,
      ?_⟩
    · exact List.takeWhile_append_dropWhile.symm
    · simp [hw]
    · intro d hd
      exact List.mem_takeWhile_imp hd
    · intro d hd
      have hstop : isWordChar d = false := by
        have := List.head?_dropWhile_not isWordChar (c :: tail)
        simp only [Option.mem_def] at hd
        simpa [hd] using this
      have hne : c ≠ '=' ∧ c ≠ '!' := by
        constructor <;> (rintro rfl; revert hs; decide)
      simp [runsOn, hstop, hw, hne.1, hne.2]
  | true =>
    by_cases hpair : tail.head? = some '=' ∧ (c = '=' ∨ c = '!')
    · obtain ⟨hd, hc⟩ := hpair
      obtain ⟨rest, rfl⟩ := List.head?_eq_some_iff.1 hd
      have mem : ∃ token, ([c, '='], token) ∈ Token.symbols := by
        rcases hc with rfl | rfl
        · exact ⟨.doubleEquals, by decide⟩
        · exact ⟨.notEquals, by decide⟩
      obtain ⟨token, mem⟩ := mem
      refine ⟨[c, '='], token, rest, rfl, .symbol mem, ?_⟩
      intro d _
      simp [runsOn, isWordChar, hs]
    · obtain ⟨token, mem⟩ := Token.exists_mem_symbols_singleton hs
      refine ⟨[c], token, tail, rfl, .symbol mem, ?_⟩
      intro d hd
      have hc : ¬ (d = '=' ∧ (c = '=' ∨ c = '!')) := by
        rintro ⟨rfl, hc⟩
        exact hpair ⟨hd, hc⟩
      simpa [runsOn, isWordChar, hs] using hc

/-! ## 2. Texts as blanks and literals -/

/-- Every character of a text is a blank. -/
def Blank (text : List Char) : Prop :=
  ∀ c ∈ text, isBlank c = true

theorem blank_nil : Blank [] := by
  simp [Blank]

theorem Blank.append {blanks more : List Char} (hb : Blank blanks) (hm : Blank more) :
    Blank (blanks ++ more) := by
  intro c hc
  rcases List.mem_append.1 hc with hc | hc
  · exact hb c hc
  · exact hm c hc

/-- What holds of blanks, and of every text that begins with a literal if it holds of the text
after it, holds of all texts. -/
@[elab_as_elim]
theorem text_induction {motive : List Char → Prop} (blanks : ∀ blanks, Blank blanks → motive blanks)
    (lexeme : ∀ blanks literal token rest, Blank blanks → Literal literal token →
      Ends literal rest → motive rest → motive (blanks ++ (literal ++ rest)))
    (text : List Char) : motive text := by
  induction hn : text.length using Nat.strongRecOn generalizing text with
  | ind n ih =>
    subst hn
    have hsplit : text.takeWhile isBlank ++ text.dropWhile isBlank = text :=
      List.takeWhile_append_dropWhile
    have hblank : Blank (text.takeWhile isBlank) := fun c hc => List.mem_takeWhile_imp hc
    cases hrest : text.dropWhile isBlank with
    | nil =>
      rw [hrest, List.append_nil] at hsplit
      rw [← hsplit]
      exact blanks _ hblank
    | cons c tail =>
      obtain ⟨literal, token, rest, heq, hl, he⟩ :=
        exists_literal (isBlank_of_dropWhile hrest) tail
      have hlen : rest.length < text.length := by
        have hpos : 0 < literal.length := List.length_pos_iff.2 hl.ne_nil
        rw [← hsplit, hrest, heq]
        simp only [List.length_append]
        omega
      rw [← hsplit, hrest, heq]
      exact lexeme _ _ _ _ hblank hl he (ih _ hlen rest rfl)

/-- The first lexeme of a text that begins with a literal. -/
theorem next_lexeme {blanks literal rest : List Char} {token : Token} (hb : Blank blanks)
    (hl : Literal literal token) (he : Ends literal rest) :
    next (blanks ++ (literal ++ rest)) = (⟨token, String.ofList literal⟩, rest) := by
  have hbody : (blanks ++ (literal ++ rest)).dropWhile isBlank = literal ++ rest := by
    rw [List.dropWhile_append_of_pos hb]
    obtain ⟨c, tail, rfl⟩ := List.exists_cons_of_ne_nil hl.ne_nil
    rw [List.cons_append, List.dropWhile_cons, hl.not_blank c (by simp)]
    rfl
  simp only [next, hbody, head_literal hl he, List.drop_left]

theorem ofText_blanks {blanks : List Char} (hb : Blank blanks) : ofText blanks = [endOfText] := by
  apply ofText_of_dropWhile_eq_nil
  rw [List.dropWhile_eq_nil_iff]
  exact hb

theorem ofText_lexeme {blanks literal rest : List Char} {token : Token} (hb : Blank blanks)
    (hl : Literal literal token) (he : Ends literal rest) :
    ofText (blanks ++ (literal ++ rest)) = ⟨token, String.ofList literal⟩ :: ofText rest := by
  have hnext := next_lexeme hb hl he
  rw [ofText_cons, hnext]
  · rw [hnext]
    exact hl.known.1
  · rw [hnext]
    exact hl.known.2

/-- What a text holds before its end. -/
def body (text : List Char) : List Lexeme :=
  (ofText text).dropLast

/-- Every text is read to its end, and only there is the end found. -/
theorem ofText_eq (text : List Char) : ofText text = body text ++ [endOfText] := by
  suffices h : ∃ lexemes, ofText text = lexemes ++ [endOfText] by
    obtain ⟨lexemes, h⟩ := h
    rw [body, h, List.dropLast_concat]
  induction text using text_induction with
  | blanks blanks hb => exact ⟨[], ofText_blanks hb⟩
  | lexeme blanks literal token rest hb hl he ih =>
    obtain ⟨lexemes, ih⟩ := ih
    exact ⟨⟨token, String.ofList literal⟩ :: lexemes, by rw [ofText_lexeme hb hl he, ih]; rfl⟩

theorem mem_ofText {text : List Char} {lexeme : Lexeme} :
    lexeme ∈ ofText text ↔ lexeme ∈ body text ∨ lexeme = endOfText := by
  rw [ofText_eq, List.mem_append, List.mem_singleton]

theorem body_blanks {blanks : List Char} (hb : Blank blanks) : body blanks = [] := by
  rw [body, ofText_blanks hb]
  rfl

@[simp] theorem body_nil : body [] = [] :=
  body_blanks blank_nil

theorem body_lexeme {blanks literal rest : List Char} {token : Token} (hb : Blank blanks)
    (hl : Literal literal token) (he : Ends literal rest) :
    body (blanks ++ (literal ++ rest)) = ⟨token, String.ofList literal⟩ :: body rest := by
  rw [body, ofText_lexeme hb hl he, ofText_eq, List.dropLast_cons_of_ne_nil (by simp),
    List.dropLast_concat]

/-- Only a text of blanks holds nothing before its end. -/
theorem body_eq_nil_iff {text : List Char} : body text = [] ↔ Blank text := by
  refine ⟨fun h => ?_, body_blanks⟩
  induction text using text_induction with
  | blanks blanks hb => exact hb
  | lexeme blanks literal token rest hb hl he _ =>
    rw [body_lexeme hb hl he] at h
    simp at h

/-- A literal by itself has one lexeme. -/
theorem body_literal {literal : List Char} {token : Token} (hl : Literal literal token) :
    body literal = [⟨token, String.ofList literal⟩] := by
  have h := body_lexeme blank_nil hl (ends_nil literal)
  rw [List.nil_append, List.append_nil, body_nil] at h
  exact h

/-- Every lexeme before the end of a text was read from a literal. -/
theorem literal_of_mem_body {text : List Char} {lexeme : Lexeme} (h : lexeme ∈ body text) :
    Literal lexeme.literal.toList lexeme.token := by
  induction text using text_induction with
  | blanks blanks hb =>
    rw [body_blanks hb] at h
    simp at h
  | lexeme blanks literal token rest hb hl he ih =>
    rw [body_lexeme hb hl he] at h
    rcases List.mem_cons.1 h with rfl | h
    · simpa using hl
    · exact ih h

theorem body_blanks_append {blanks : List Char} (hb : Blank blanks) (text : List Char) :
    body (blanks ++ text) = body text := by
  induction text using text_induction with
  | blanks more hm => rw [body_blanks hm, body_blanks (hb.append hm)]
  | lexeme more literal token rest hm hl he _ =>
    rw [← List.append_assoc, body_lexeme (hb.append hm) hl he, body_lexeme hm hl he]

/-! ## 3. Cutting a text at a lexeme -/

/-- A text can be cut before and after each of its lexemes. -/
theorem exists_cut {text : List Char} {pre post : List Lexeme} {lexeme : Lexeme}
    (h : body text = pre ++ lexeme :: post) :
    ∃ before after, text = before ++ (lexeme.literal.toList ++ after) ∧ body before = pre ∧
      body (before ++ lexeme.literal.toList) = pre ++ [lexeme] ∧ body after = post := by
  induction text using text_induction generalizing pre with
  | blanks blanks hb =>
    rw [body_blanks hb] at h
    simp at h
  | lexeme blanks literal token rest hb hl he ih =>
    rw [body_lexeme hb hl he] at h
    cases pre with
    | nil =>
      simp only [List.nil_append, List.cons.injEq] at h
      obtain ⟨rfl, rfl⟩ := h
      refine ⟨blanks, rest, by simp, body_blanks hb, ?_, rfl⟩
      rw [body_blanks_append hb]
      simpa using body_literal hl
    | cons first pre =>
      simp only [List.cons_append, List.cons.injEq] at h
      obtain ⟨rfl, h⟩ := h
      obtain ⟨before, after, rfl, hbefore, hupto, hafter⟩ := ih h
      refine ⟨blanks ++ (literal ++ before), after, by simp, ?_, ?_, hafter⟩
      · rw [body_lexeme hb hl he.of_append, hbefore]
      · rw [← List.append_assoc] at he
        rw [List.append_assoc, List.append_assoc, body_lexeme hb hl he.of_append, hupto]
        rfl

theorem length_literal_le {text : List Char} {lexeme : Lexeme} (h : lexeme ∈ body text) :
    lexeme.literal.toList.length ≤ text.length := by
  obtain ⟨pre, post, hbody⟩ := List.append_of_mem h
  obtain ⟨before, after, rfl, -⟩ := exists_cut hbody
  simp
  omega

/-! ## 4. Texts put together -/

/-- The last literal of a text stands at its end and is read on into what follows. -/
def Glued (before after : List Char) : Prop :=
  ∃ lexeme ∈ (body before).getLast?, lexeme.literal.toList <:+ before ∧
    ¬ Ends lexeme.literal.toList after

/-- A literal is the first lexeme of a text that begins with it only where it ends. -/
theorem body_literal_append_iff {literal rest : List Char} {token : Token}
    (hl : Literal literal token) :
    body (literal ++ rest) = [⟨token, String.ofList literal⟩] ++ body rest ↔
      Ends literal rest := by
  refine ⟨fun h => ?_, fun he => body_lexeme blank_nil hl he⟩
  obtain ⟨c, tail, hcons⟩ := List.exists_cons_of_ne_nil hl.ne_nil
  have hblank : isBlank c = false := hl.not_blank c (by simp [hcons])
  obtain ⟨first, kind, after, hsplit, hfirst, he⟩ := exists_literal hblank (tail ++ rest)
  rw [← List.cons_append, ← hcons] at hsplit
  rw [hsplit, ← List.nil_append (first ++ after), body_lexeme blank_nil hfirst he] at h
  obtain rfl : first = literal :=
    String.ofList_inj.1 (congrArg Lexeme.literal (List.cons.inj h).1)
  rw [List.append_cancel_left hsplit]
  exact he

theorem not_glued_blanks {blanks after : List Char} (hb : Blank blanks) : ¬ Glued blanks after := by
  rintro ⟨lexeme, hlast, -⟩
  rw [body_blanks hb] at hlast
  cases hlast

/-- A literal at the end of a text is read on unless it ends there. -/
theorem glued_literal {blanks literal after : List Char} {token : Token} (hb : Blank blanks)
    (hl : Literal literal token) : Glued (blanks ++ literal) after ↔ ¬ Ends literal after := by
  simp [Glued, body_blanks_append hb, body_literal hl]

/-- Whether the last literal of a text is read on does not depend on what comes before it. -/
theorem glued_lexeme {blanks literal rest after : List Char} {token : Token} (hb : Blank blanks)
    (hl : Literal literal token) (he : Ends literal rest) (hne : rest ≠ []) :
    Glued (blanks ++ (literal ++ rest)) after ↔ Glued rest after := by
  have hsuffix : rest <:+ blanks ++ (literal ++ rest) :=
    (List.suffix_append literal rest).trans (List.suffix_append _ _)
  unfold Glued
  rw [body_lexeme hb hl he, List.getLast?_cons]
  constructor
  · rintro ⟨lexeme, hlast, hend, hrun⟩
    cases hrest : (body rest).getLast? with
    | some last =>
      rw [hrest, Option.getD_some, Option.mem_some_iff] at hlast
      subst hlast
      have hlength := length_literal_le (List.mem_of_getLast? hrest)
      exact ⟨last, rfl, List.suffix_of_suffix_length_le hend hsuffix hlength, hrun⟩
    | none =>
      -- Only blanks follow the literal, so it does not stand at the end.
      rw [hrest, Option.getD_none, Option.mem_some_iff] at hlast
      subst hlast
      rw [String.toList_ofList] at hend
      rw [List.getLast?_eq_none_iff, body_eq_nil_iff] at hrest
      have hc := List.getLast_mem hl.ne_nil
      have hsame : literal.getLast hl.ne_nil = rest.getLast hne := by
        rw [hend.getLast hl.ne_nil, ← hsuffix.getLast hne]
      rw [hsame] at hc
      have hblank := hrest _ (List.getLast_mem hne)
      rw [hl.not_blank _ hc] at hblank
      cases hblank
  · rintro ⟨lexeme, hlast, hend, hrun⟩
    refine ⟨lexeme, ?_, hend.trans hsuffix, hrun⟩
    rw [hlast]
    rfl

/-- The lexemes of two texts put together are those of the first and then those of the second
unless something is read on across the seam. -/
theorem body_append_iff {before after : List Char} :
    body (before ++ after) = body before ++ body after ↔ ¬ Glued before after := by
  induction before using text_induction with
  | blanks blanks hb =>
    simp [body_blanks_append hb, body_blanks hb, not_glued_blanks hb]
  | lexeme blanks literal token rest hb hl he ih =>
    by_cases hne : rest = []
    · subst hne
      rw [List.append_nil, glued_literal hb hl, Classical.not_not, List.append_assoc,
        body_blanks_append hb, body_blanks_append hb, body_literal hl]
      exact body_literal_append_iff hl
    · have hseam : Ends literal (rest ++ after) := by
        obtain ⟨c, rest, rfl⟩ := List.exists_cons_of_ne_nil hne
        exact he
      rw [glued_lexeme hb hl he hne, ← ih, List.append_assoc, List.append_assoc,
        body_lexeme hb hl hseam, body_lexeme hb hl he, List.cons_append, List.cons_inj_right]

theorem body_append {before after : List Char} (h : ¬ Glued before after) :
    body (before ++ after) = body before ++ body after :=
  body_append_iff.2 h

/-- Whether two characters side by side may belong to one literal. -/
def joins (a b : Char) : Bool :=
  (isWordChar a && isWordChar b) || (b = '=' && (a = '=' || a = '!'))

/-- A seam between characters that belong to no one literal is a place to cut. -/
theorem body_append_of_seam {before after : List Char}
    (h : ∀ a ∈ before.getLast?, ∀ b ∈ after.head?, joins a b = false) :
    body (before ++ after) = body before ++ body after := by
  apply body_append
  rintro ⟨lexeme, hlast, ⟨front, hfront⟩, hrun⟩
  have hl := literal_of_mem_body (List.mem_of_getLast? hlast)
  apply hrun
  intro b hb
  generalize lexeme.literal.toList = literal at hl hfront
  obtain ⟨init, a, rfl⟩ : ∃ init a, literal = init ++ [a] :=
    ⟨_, _, (List.dropLast_concat_getLast hl.ne_nil).symm⟩
  have ha : a ∈ before.getLast? := by
    rw [← hfront, ← List.append_assoc]
    simp
  have hj := h a ha b hb
  simp only [joins, Bool.or_eq_false_iff, Bool.and_eq_false_iff, decide_eq_false_iff_not] at hj
  obtain ⟨hword, hequals⟩ := hj
  simp only [runsOn, Bool.or_eq_false_iff, Bool.and_eq_false_iff, decide_eq_false_iff_not]
  refine ⟨?_, ?_⟩
  · refine hword.imp_left fun ha => ?_
    simp [ha]
  · refine hequals.imp_right fun hne => ⟨?_, ?_⟩
    · intro heq
      exact hne.1 (List.append_eq_singleton_iff.1 heq |>.elim (by simp) (by simp))
    · intro heq
      exact hne.2 (List.append_eq_singleton_iff.1 heq |>.elim (by simp) (by simp))

/-- Around a character that belongs to no longer literal a text can always be cut. -/
theorem body_separator {c : Char} (hw : isWordChar c = false) (hequals : c ≠ '=') (hbang : c ≠ '!')
    (before after : List Char) :
    body (before ++ c :: after) = body before ++ (body [c] ++ body after) := by
  have hright : body ([c] ++ after) = body [c] ++ body after := by
    apply body_append_of_seam
    intro a ha b _
    have ha : c = a := by simpa using ha
    subst ha
    simp [joins, hw, hequals, hbang]
  have hleft : body (before ++ ([c] ++ after)) = body before ++ body ([c] ++ after) := by
    apply body_append_of_seam
    intro a _ b hb
    have hb : c = b := by simpa using hb
    subst hb
    simp [joins, hw, hequals]
  rw [← hright, ← hleft]
  rfl

theorem body_comma (before after : List Char) :
    body (before ++ ',' :: after) = body before ++ ⟨.comma, ","⟩ :: body after := by
  have hcomma : body [','] = [⟨.comma, ","⟩] := body_literal (.symbol (by decide))
  rw [body_separator (by decide) (by decide) (by decide), hcomma, List.singleton_append]

theorem body_space (before after : List Char) :
    body (before ++ ' ' :: after) = body before ++ body after := by
  have hspace : body [' '] = [] := body_blanks (by simp [Blank]; decide)
  rw [body_separator (by decide) (by decide) (by decide), hspace, List.nil_append]

end Lexeme

end LabelSelector
