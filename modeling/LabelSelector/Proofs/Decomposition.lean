/-
LabelSelector.Proofs.Decomposition — the one way to take a text apart.

A decomposition puts a text together out of blanks and lexemes, so that nothing of the text is lost
and nothing is added. It is one of the text (`Decomposition.Of`) when each lexeme `Stands` in its
place: it is an entry of the table of symbols or a word that goes on in neither direction, and a
symbol that may be the beginning of a longer one is not. These conditions look at a lexeme and the
characters beside it, and say nothing of reading.

Every text has a decomposition (`exists_proper`) and only one (`Decomposition.Of.eq`), and its
lexemes are those that are read from the text (`Decomposition.Of.ofText_eq`).
-/
import LabelSelector.Proofs.Scanning

namespace LabelSelector

namespace Lexeme

open Text

/-! ## 1. Lexemes in their places -/

/-- The kind of a word. -/
def wordKind (word : String) : Token :=
  if word = "in" then .isIn else if word = "notin" then .notIn else .identifier

/-- A run of word characters that goes on in neither direction. -/
structure WholeWord (before word after : List Char) : Prop where
  chars : ∀ c ∈ word, isWordChar c = true
  starts : ∀ c ∈ before.getLast?, isWordChar c = false
  ends : ∀ c ∈ after.head?, isWordChar c = false

/-- A lexeme is one of a text, between the characters before its literal and those after it. -/
structure Stands (before : List Char) (lexeme : Lexeme) (after : List Char) : Prop where
  ne_nil : lexeme.literal.toList ≠ []
  kind : (lexeme.literal.toList, lexeme.token) ∈ Token.symbols ∨
    (WholeWord before lexeme.literal.toList after ∧ lexeme.token = wordKind lexeme.literal)
  longest : lexeme.literal = "=" ∨ lexeme.literal = "!" → after.head? ≠ some '='

/-- A lexeme and the blanks after it. -/
structure Piece where
  lexeme : Lexeme
  blanks : List Char

/-- The characters of some pieces, in order. -/
def spelled (pieces : List Piece) : List Char :=
  pieces.flatMap fun piece => piece.lexeme.literal.toList ++ piece.blanks

/-- After the characters `before`, every piece is a lexeme in its place with blanks after it. -/
inductive Proper : List Char → List Piece → Prop
  | nil {before : List Char} : Proper before []
  | cons {before blanks : List Char} {lexeme : Lexeme} {pieces : List Piece}
      (stands : Stands before lexeme (blanks ++ spelled pieces)) (blank : Blank blanks)
      (rest : Proper (before ++ (lexeme.literal.toList ++ blanks)) pieces) :
      Proper before (⟨lexeme, blanks⟩ :: pieces)

/-- A text taken apart: the blanks at its start, and its lexemes with the blanks after each. -/
structure Decomposition where
  blanks : List Char
  pieces : List Piece

/-- The decomposition puts a text together, with each lexeme in its place. -/
structure Decomposition.Of (cut : Decomposition) (text : List Char) : Prop where
  blank : Blank cut.blanks
  proper : Proper cut.blanks cut.pieces
  spelled_eq : cut.blanks ++ spelled cut.pieces = text

/-- The lexemes of a decomposition, in order. -/
def Decomposition.lexemes (cut : Decomposition) : List Lexeme :=
  cut.pieces.map Piece.lexeme

variable {before after blanks : List Char} {lexeme : Lexeme} {pieces others : List Piece}

@[simp] theorem spelled_nil : spelled [] = [] :=
  rfl

@[simp] theorem spelled_cons (lexeme : Lexeme) (blanks : List Char) (pieces : List Piece) :
    spelled (⟨lexeme, blanks⟩ :: pieces) =
      lexeme.literal.toList ++ (blanks ++ spelled pieces) := by
  simp [spelled]

/-! ## 2. What stands in a text is read from it -/

theorem ofWord_toList (word : String) : Token.ofWord word.toList = wordKind word := by
  have hbeq : ∀ keyword : String, (word.toList == keyword.toList) = decide (word = keyword) := by
    intro keyword
    rw [Bool.eq_iff_iff, beq_iff_eq, decide_eq_true_iff, String.toList_inj]
  have hin : (word.toList == ['i', 'n']) = decide (word = "in") := hbeq "in"
  have hnotin : (word.toList == ['n', 'o', 't', 'i', 'n']) = decide (word = "notin") :=
    hbeq "notin"
  simp only [Token.ofWord, Token.keywords, List.lookup_cons, List.lookup_nil, hin, hnotin, wordKind]
  by_cases h : word = "in"
  · simp [h]
  · by_cases h' : word = "notin" <;> simp [h, h']

theorem Stands.literal (h : Stands before lexeme after) :
    Literal lexeme.literal.toList lexeme.token := by
  rcases h.kind with mem | ⟨whole, kind⟩
  · exact .symbol mem
  · rw [kind, ← ofWord_toList]
    exact .word h.ne_nil whole.chars

theorem isWordChar_eq_false_of_mem_symbols {literal : List Char} {token : Token}
    (mem : (literal, token) ∈ Token.symbols) : ∀ c ∈ literal, isWordChar c = false := by
  intro c hc
  simp [isWordChar, Token.isSymbol_of_mem_symbols _ mem c hc]

/-- No word goes on from `before` into `after`. -/
def Parted (before after : List Char) : Prop :=
  ∀ a ∈ before.getLast?, ∀ c ∈ after.head?, isWordChar a = true → isWordChar c = false

theorem Stands.ends (h : Stands before lexeme after) : Ends lexeme.literal.toList after := by
  intro c hc
  have hword : (lexeme.literal.toList.all isWordChar && isWordChar c) = false := by
    rcases h.kind with mem | ⟨whole, _⟩
    · obtain ⟨d, hd⟩ := List.exists_mem_of_ne_nil _ h.ne_nil
      have hd' := isWordChar_eq_false_of_mem_symbols mem d hd
      rw [List.all_eq_false.2 ⟨d, hd, by simp [hd']⟩, Bool.false_and]
    · rw [whole.ends c hc, Bool.and_false]
  have hpair : c = '=' → lexeme.literal.toList ≠ ['='] ∧ lexeme.literal.toList ≠ ['!'] := by
    rintro rfl
    obtain ⟨hequals, hbang⟩ := not_or.1 fun hl => h.longest hl hc
    exact ⟨mt (@String.toList_inj _ "=").1 hequals, mt (@String.toList_inj _ "!").1 hbang⟩
  simp only [runsOn, hword, Bool.false_or, Bool.and_eq_false_imp, decide_eq_true_eq,
    Bool.or_eq_false_iff, decide_eq_false_iff_not]
  exact hpair

/-- A literal that ends stands where no word runs into it. -/
theorem stands_literal {literal : List Char} {token : Token} (hl : Literal literal token)
    (he : Ends literal after) (hp : Parted before literal) :
    Stands before ⟨token, String.ofList literal⟩ after := by
  refine ⟨by simpa using hl.ne_nil, ?_, ?_⟩
  · rw [String.toList_ofList]
    cases hl with
    | symbol mem => exact .inl mem
    | word ne all =>
      refine .inr ⟨⟨all, ?_, ?_⟩, ?_⟩
      · intro a ha
        obtain ⟨c, tail, rfl⟩ := List.exists_cons_of_ne_nil ne
        refine Bool.eq_false_iff.2 fun hw => ?_
        have hc := hp a ha c rfl hw
        rw [all c (by simp)] at hc
        cases hc
      · exact he.isWordChar_eq_false all
      · rw [← ofWord_toList, String.toList_ofList]
  · intro hpair hc
    have hrun := he '=' hc
    rcases hpair with h | h
    all_goals
      rw [← String.toList_inj, String.toList_ofList] at h
      subst h
      revert hrun
      decide

/-! ## 3. Every text can be taken apart -/

/-- A literal that ends is parted from what follows. -/
theorem parted_literal (before : List Char) {literal : List Char} {token : Token}
    (hl : Literal literal token) (he : Ends literal after) : Parted (before ++ literal) after := by
  intro a ha c hc hw
  rw [List.getLast?_append_of_ne_nil _ hl.ne_nil] at ha
  have hmem : a ∈ literal := List.mem_of_getLast? ha
  cases hl with
  | word _ all => exact he.isWordChar_eq_false all c hc
  | symbol mem =>
    rw [isWordChar_eq_false_of_mem_symbols mem a hmem] at hw
    cases hw

/-- Blanks part what comes before them from what follows. -/
theorem parted_blanks (hb : Blank blanks) (hp : Parted before (blanks ++ after)) :
    Parted (before ++ blanks) after := by
  rcases List.eq_nil_or_concat blanks with rfl | ⟨init, b, rfl⟩
  · simpa using hp
  · intro a ha c _ hw
    obtain rfl : b = a := by simpa using ha
    have hblank : isBlank b = true := hb b (by simp)
    rw [isBlank_eq_false_of_isWordChar hw] at hblank
    cases hblank

theorem Parted.of_append {rest : List Char} (hp : Parted before (after ++ rest)) :
    Parted before after := by
  intro a ha c hc
  cases after with
  | nil => cases hc
  | cons d after => exact hp a ha c hc

/-- After any characters that no word of the text continues, the text can be taken apart. -/
theorem exists_proper {text : List Char} (hp : Parted before text) :
    ∃ blanks pieces, Blank blanks ∧ Proper (before ++ blanks) pieces ∧
      blanks ++ spelled pieces = text := by
  -- What comes before grows with the induction, so that each word is seen to go on in neither
  -- direction: a literal that ends is parted from the text after it.
  induction text using text_induction generalizing before with
  | blanks blanks hb => exact ⟨blanks, [], hb, .nil, by simp⟩
  | lexeme blanks literal token rest hb hl he ih =>
    obtain ⟨gap, pieces, hgap, hproper, rfl⟩ := ih (parted_literal (before ++ blanks) hl he)
    refine ⟨blanks, ⟨⟨token, String.ofList literal⟩, gap⟩ :: pieces, hb, .cons ?_ hgap ?_, ?_⟩
    · exact stands_literal hl he (parted_blanks hb hp).of_append
    · simpa using hproper
    · simp

/-! ## 4. Nothing else can be taken apart -/

/-- A lexeme is told by its kind and its characters. -/
theorem eq_of_parts {a b : Lexeme} (ht : a.token = b.token)
    (hl : a.literal.toList = b.literal.toList) : a = b := by
  cases a
  cases b
  rw [mk.injEq]
  exact ⟨ht, String.toList_inj.1 hl⟩

/-- The blanks at the start are those before the first piece. -/
theorem Proper.dropWhile_append (h : Proper before pieces) (hb : Blank blanks) :
    (blanks ++ spelled pieces).dropWhile isBlank = spelled pieces := by
  rw [List.dropWhile_append_of_pos hb]
  cases h with
  | nil => rfl
  | cons stands _ _ =>
    obtain ⟨c, tail, hc⟩ := List.exists_cons_of_ne_nil stands.ne_nil
    rw [spelled_cons, hc, List.cons_append, List.dropWhile_cons,
      stands.literal.not_blank c (by simp [hc])]
    rfl

theorem Proper.append_inj {before' blanks' : List Char} (h : Proper before pieces)
    (h' : Proper before' others) (hb : Blank blanks) (hb' : Blank blanks')
    (heq : blanks ++ spelled pieces = blanks' ++ spelled others) :
    blanks = blanks' ∧ spelled pieces = spelled others := by
  have hrest : spelled pieces = spelled others := by
    rw [← h.dropWhile_append hb, heq, h'.dropWhile_append hb']
  rw [hrest] at heq
  exact ⟨List.append_cancel_right heq, hrest⟩

/-- Pieces that are spelled alike are the same. -/
theorem Proper.eq_of_spelled {before' : List Char} (h : Proper before pieces)
    (h' : Proper before' others) (heq : spelled pieces = spelled others) : pieces = others := by
  induction h generalizing before' others with
  | nil =>
    cases h' with
    | nil => rfl
    | cons stands _ _ =>
      rw [spelled_nil, spelled_cons, eq_comm, List.append_eq_nil_iff] at heq
      exact absurd heq.1 stands.ne_nil
  | cons stands hgap hrest ih =>
    cases h' with
    | nil =>
      rw [spelled_nil, spelled_cons, List.append_eq_nil_iff] at heq
      exact absurd heq.1 stands.ne_nil
    | cons stands' hgap' hrest' =>
      rw [spelled_cons, spelled_cons] at heq
      -- Both first lexemes are what is read at the front of the same characters.
      have hread := head_literal stands.literal stands.ends
      rw [heq, head_literal stands'.literal stands'.ends] at hread
      obtain ⟨htoken, hliteral⟩ := Prod.mk.inj hread
      rw [hliteral] at heq
      obtain ⟨rfl, hspelled⟩ := hrest.append_inj hrest' hgap hgap' (List.append_cancel_left heq)
      rw [ih hrest' hspelled, eq_of_parts htoken.symm hliteral.symm]

/-- A text has no two decompositions. -/
theorem Decomposition.Of.eq {cut other : Decomposition} {text : List Char} (h : cut.Of text)
    (h' : other.Of text) : cut = other := by
  obtain ⟨hblanks, hspelled⟩ := h.proper.append_inj h'.proper h.blank h'.blank
    (h.spelled_eq.trans h'.spelled_eq.symm)
  have hpieces := h.proper.eq_of_spelled h'.proper hspelled
  cases cut
  cases other
  rw [mk.injEq]
  exact ⟨hblanks, hpieces⟩

/-! ## 5. The lexemes that are read -/

theorem body_spelled (hb : Blank blanks) (h : Proper before pieces) :
    body (blanks ++ spelled pieces) = pieces.map Piece.lexeme := by
  induction h generalizing blanks with
  | nil => simpa using body_blanks hb
  | cons stands hgap _ ih =>
    rw [spelled_cons, body_lexeme hb stands.literal stands.ends, ih hgap, String.ofList_toList]
    rfl

/-- What is read from a text is its decomposition. -/
theorem Decomposition.Of.ofText_eq {cut : Decomposition} {text : List Char} (h : cut.Of text) :
    ofText text = cut.lexemes ++ [endOfText] := by
  rw [Lexeme.ofText_eq, ← h.spelled_eq, body_spelled h.blank h.proper]
  rfl

/-- Every text can be taken apart in exactly one way into blanks and lexemes in their places, and
these are the lexemes that a cursor reads from the start on before it finds the end of the text. -/
theorem exists_unique_decomposition (text : String) :
    ∃ cut : Decomposition, cut.Of text.toList ∧
      (∀ other : Decomposition, other.Of text.toList → other = cut) ∧
      ((Cursor.start text).run (List.replicate (cut.lexemes.length + 1) .lex)).map Prod.fst =
        (cut.lexemes ++ [endOfText]).map .lexeme ∧
      ofText text.toList = cut.lexemes ++ [endOfText] ∧
      ∀ lexeme ∈ cut.lexemes, lexeme.token ≠ .endOfText ∧ lexeme.token ≠ .unknown := by
  have hparted : Parted [] text.toList := by
    intro a ha
    cases ha
  obtain ⟨blanks, pieces, hb, hproper, hspelled⟩ := exists_proper hparted
  have hof : Decomposition.Of ⟨blanks, pieces⟩ text.toList := ⟨hb, hproper, hspelled⟩
  refine ⟨⟨blanks, pieces⟩, hof, fun other hother => hother.eq hof, ?_, hof.ofText_eq, ?_⟩
  · have hrun := Cursor.run_lex (Cursor.start_at text)
    rw [hof.ofText_eq, List.length_append] at hrun
    exact hrun
  · intro lexeme hmem
    rw [Decomposition.lexemes, ← body_spelled hb hproper] at hmem
    exact (literal_of_mem_body hmem).known

end Lexeme

end LabelSelector
