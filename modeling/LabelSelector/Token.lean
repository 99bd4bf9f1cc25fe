/-
LabelSelector.Token — the kinds of word and symbol that selector text is made of.

A token is a kind only; the text it was read from travels beside it in a `Lexeme`. Two tables tie
kinds to literals: `symbols`, whose literals are runs of symbol characters, and `keywords`, whose
literals are words. `symbols` is ordered by falling length (`symbols_pairwise`), so the first of its
literals that a text starts with is the longest one (`ofSymbols_of_longest`). Every beginning of a
literal of symbols is one too (`exists_mem_symbols_of_prefix`), so the longest can also be found by
looking up a run that grows by one character at a time, up to the first that is no literal.
-/
import LabelSelector.Text.Identifier

namespace LabelSelector

/-- A kind of word or symbol. -/
inductive Token where
  /-- A run of symbols that starts with no known one. -/
  | unknown
  /-- The end of the text. -/
  | endOfText
  /-- The symbol `)`. -/
  | closeParen
  /-- The symbol `,`. -/
  | comma
  /-- The symbol `!`. -/
  | bang
  /-- The symbol `==`. -/
  | doubleEquals
  /-- The symbol `=`. -/
  | equals
  /-- The symbol `>`. -/
  | greater
  /-- A word that is not a keyword. -/
  | identifier
  /-- The keyword `in`. -/
  | isIn
  /-- The symbol `<`. -/
  | less
  /-- The symbol `!=`. -/
  | notEquals
  /-- The keyword `notin`. -/
  | notIn
  /-- The symbol `(`. -/
  | openParen
  deriving DecidableEq, Repr

namespace Token

/-- The literals made of symbol characters, longest first. -/
def symbols : List (List Char × Token) :=
  [(['=', '='], .doubleEquals), (['!', '='], .notEquals), (['='], .equals), (['!'], .bang),
    (['('], .openParen), ([')'], .closeParen), ([','], .comma), (['>'], .greater),
    (['<'], .less)]

/-- The words with a meaning of their own. -/
def keywords : List (List Char × Token) :=
  [(['i', 'n'], .isIn), (['n', 'o', 't', 'i', 'n'], .notIn)]

/-- The kind that a whole text names, when it is a symbol or a keyword. -/
def ofLiteral? (text : String) : Option Token :=
  (symbols ++ keywords).lookup text.toList

/-- The kind of a word: a keyword if it is spelled as one, otherwise an identifier. -/
def ofWord (word : List Char) : Token :=
  (keywords.lookup word).getD .identifier

/-- The longest known literal that a text starting with a symbol starts with, with its kind. If it
starts with none, its run of symbols is unknown as a whole. -/
def ofSymbols (text : List Char) : Token × List Char :=
  match symbols.find? fun entry => entry.1.isPrefixOf text with
  | some entry => (entry.2, entry.1)
  | none => (.unknown, text.takeWhile Text.isSymbol)

/-- The kind as it counts outside operator position, where the keywords are ordinary words. -/
def asWord : Token → Token
  | .isIn => .identifier
  | .notIn => .identifier
  | token => token

/-! ## The tables -/

/-- No literal in the table of symbols is longer than one listed before it. -/
theorem symbols_pairwise : symbols.Pairwise fun a b => b.1.length ≤ a.1.length := by
  decide

/-- No literal stands in the tables twice. -/
theorem literals_pairwise : (symbols ++ keywords).Pairwise fun a b => a.1 ≠ b.1 := by
  decide

/-- A literal in the table of symbols is made of symbol characters. -/
theorem isSymbol_of_mem_symbols :
    ∀ entry ∈ symbols, ∀ c ∈ entry.1, Text.isSymbol c = true := by
  simp [symbols, Text.isSymbol, Text.symbols]

/-- A keyword is made of word characters. -/
theorem isWordChar_of_mem_keywords :
    ∀ entry ∈ keywords, ∀ c ∈ entry.1, Text.isWordChar c = true := by
  simp [keywords, Text.isWordChar, Text.isBlank, Text.blankRanges, Text.isSymbol, Text.symbols]

/-- Every symbol character alone is a literal of the table. -/
theorem exists_mem_symbols_singleton {c : Char} (h : Text.isSymbol c = true) :
    ∃ token, ([c], token) ∈ symbols := by
  simp only [Text.isSymbol, Text.symbols, List.contains_iff_mem, List.mem_cons, List.not_mem_nil,
    or_false] at h
  rcases h with rfl | rfl | rfl | rfl | rfl | rfl | rfl
  · exact ⟨.equals, by decide⟩
  · exact ⟨.bang, by decide⟩
  · exact ⟨.openParen, by decide⟩
  · exact ⟨.closeParen, by decide⟩
  · exact ⟨.comma, by decide⟩
  · exact ⟨.greater, by decide⟩
  · exact ⟨.less, by decide⟩

/-- No literal in the table of symbols is empty. -/
theorem ne_nil_of_mem_symbols : ∀ entry ∈ symbols, entry.1 ≠ [] := by
  decide

/-- The first characters of a literal in the table of symbols are a literal of the table. -/
theorem take_mem_symbols : ∀ entry ∈ symbols, ∀ n < entry.1.length,
    entry.1.take (n + 1) ∈ symbols.map Prod.fst := by
  decide

/-- Every beginning of a literal in the table of symbols is a literal of the table. -/
theorem exists_mem_symbols_of_prefix {entry : List Char × Token} {run : List Char}
    (h : entry ∈ symbols) (hp : run <+: entry.1) (hne : run ≠ []) :
    ∃ token, (run, token) ∈ symbols := by
  have hle : run.length ≤ entry.1.length := hp.length_le
  have hpos : 0 < run.length := List.length_pos_iff.2 hne
  have htake := take_mem_symbols entry h (run.length - 1) (by omega)
  rw [Nat.sub_add_cancel hpos, ← List.prefix_iff_eq_take.1 hp] at htake
  obtain ⟨⟨_, token⟩, hmem, rfl⟩ := List.mem_map.1 htake
  exact ⟨token, hmem⟩

/-! ## Looking a text up -/

/-- A text names the kind that it stands beside in a table. -/
theorem ofLiteral?_eq_some_iff {text : String} {token : Token} :
    ofLiteral? text = some token ↔ (text.toList, token) ∈ symbols ++ keywords := by
  rw [ofLiteral?, List.lookup_eq_some_iff]
  constructor
  · rintro ⟨before, after, eq, _⟩
    rw [eq]
    exact List.mem_append_right before List.mem_cons_self
  · intro hmem
    obtain ⟨before, after, eq⟩ := List.append_of_mem hmem
    have hpair := literals_pairwise
    rw [eq, List.pairwise_append] at hpair
    refine ⟨before, after, eq, fun other hother => bne_iff_ne.2 fun same => ?_⟩
    exact hpair.2.2 other hother _ List.mem_cons_self same.symm

/-- A text with a symbol in it names a kind when it stands in the table of symbols. -/
theorem ofLiteral?_run {run : List Char} {c : Char} {token : Token} (hc : c ∈ run)
    (hs : Text.isSymbol c = true) :
    ofLiteral? (String.ofList run) = some token ↔ (run, token) ∈ symbols := by
  rw [ofLiteral?_eq_some_iff, String.toList_ofList, List.mem_append]
  refine or_iff_left fun hmem => ?_
  have hw := Text.isSymbol_eq_false_of_isWordChar (isWordChar_of_mem_keywords _ hmem c hc)
  rw [hs] at hw
  cases hw

/-- A word names the kind of a keyword, or none. -/
theorem ofLiteral?_word {word : List Char} (all : ∀ c ∈ word, Text.isWordChar c = true) :
    (ofLiteral? (String.ofList word)).getD .identifier = ofWord word := by
  have hnone : symbols.lookup word = none := by
    refine List.lookup_eq_none_iff.2 fun entry hmem => bne_iff_ne.2 ?_
    rintro rfl
    obtain ⟨c, hc⟩ := List.exists_mem_of_ne_nil _ (ne_nil_of_mem_symbols entry hmem)
    have hw := Text.isSymbol_eq_false_of_isWordChar (all c hc)
    rw [isSymbol_of_mem_symbols entry hmem c hc] at hw
    cases hw
  rw [ofLiteral?, String.toList_ofList, List.lookup_append, hnone, Option.none_or, ofWord]

/-- The kind of a literal in the table of symbols is the one it stands beside. -/
theorem eq_of_mem_symbols {literal : List Char} {token other : Token}
    (h : (literal, token) ∈ symbols) (h' : (literal, other) ∈ symbols) : token = other := by
  have hlookup : ∀ kind, (literal, kind) ∈ symbols →
      ofLiteral? (String.ofList literal) = some kind := by
    intro kind hmem
    rw [ofLiteral?_eq_some_iff, String.toList_ofList]
    exact List.mem_append_left _ hmem
  exact Option.some.inj ((hlookup token h).symm.trans (hlookup other h'))

/-! ## What a text starts with -/

/-- A literal of the table of symbols is the longest that a text starts with. -/
structure Longest (text : List Char) (token : Token) (literal : List Char) : Prop where
  mem : (literal, token) ∈ symbols
  isPrefix : literal <+: text
  length_le : ∀ entry ∈ symbols, entry.1 <+: text → entry.1.length ≤ literal.length

/-- What is found first in the table of symbols is as long as anything else there is to find. -/
theorem length_le_of_find? {p : List Char × Token → Bool} {entry other : List Char × Token}
    (hfind : symbols.find? p = some entry) (hmem : other ∈ symbols) (hp : p other = true) :
    other.1.length ≤ entry.1.length := by
  obtain ⟨_, before, after, eq, hbefore⟩ := List.find?_eq_some_iff_append.1 hfind
  rw [eq, List.mem_append, List.mem_cons] at hmem
  rcases hmem with hmem | rfl | hmem
  · have hnot := hbefore other hmem
    rw [hp] at hnot
    cases hnot
  · exact Nat.le_refl _
  · have hpair := symbols_pairwise
    rw [eq, List.pairwise_append, List.pairwise_cons] at hpair
    exact hpair.2.1.1 other hmem

/-- The longest literal that a text starts with is the first one found. -/
theorem ofSymbols_of_longest {text literal : List Char} {token : Token}
    (h : Longest text token literal) : ofSymbols text = (token, literal) := by
  have hp : literal.isPrefixOf text = true := List.isPrefixOf_iff_prefix.2 h.isPrefix
  unfold ofSymbols
  split
  · rename_i entry hfind
    have hmem : entry ∈ symbols := List.mem_of_find?_eq_some hfind
    have hfound := List.find?_some hfind
    have hentry : entry.1 <+: text := List.isPrefixOf_iff_prefix.1 hfound
    have hlen : literal.length = entry.1.length :=
      Nat.le_antisymm (length_le_of_find? hfind h.mem hp) (h.length_le entry hmem hentry)
    have hsame : literal = entry.1 := by
      rw [List.prefix_iff_eq_take.1 h.isPrefix, List.prefix_iff_eq_take.1 hentry, hlen]
    subst hsame
    rw [eq_of_mem_symbols h.mem hmem]
  · rename_i hfind
    exact absurd hp (List.find?_eq_none.1 hfind _ h.mem)

/-- The literal found at a symbol is a beginning of the text. -/
theorem ofSymbols_isPrefix (text : List Char) : (ofSymbols text).2 <+: text := by
  unfold ofSymbols
  split
  · rename_i entry h
    have found := List.find?_some h
    exact List.isPrefixOf_iff_prefix.1 found
  · exact List.takeWhile_prefix _

/-- The literal found at a symbol is not empty. -/
theorem ofSymbols_ne_nil {c : Char} {rest : List Char} (hs : Text.isSymbol c = true) :
    (ofSymbols (c :: rest)).2 ≠ [] := by
  unfold ofSymbols
  split
  · rename_i entry h
    exact ne_nil_of_mem_symbols entry (List.mem_of_find?_eq_some h)
  · simp [hs]

end Token

end LabelSelector
