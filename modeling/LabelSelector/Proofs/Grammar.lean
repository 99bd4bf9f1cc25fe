/-
LabelSelector.Proofs.Grammar — the language of selectors, as relations on lexemes.

`Shape` lists the forms of one requirement, `Listed` puts requirements one after another between
commas, and `Selection` adds that a text may hold none. What is no selection goes wrong at some
place, and there are relations for that too: `Refusal` is the beginning of a requirement with the
lexeme that cannot go on with it, `BadBound` a comparison whose bound is no integer, and `Halt`
adds what can be wrong between requirements.

Lexemes that end are exactly one of these (`exists_verdict`), and whatever comes before a refused
lexeme can be completed (`Halt.completable`). Nothing here speaks of how lexemes are read.
-/
import LabelSelector.Proofs.Lexing
import LabelSelector.Proofs.Slots

namespace LabelSelector

namespace Lexeme

/-- A lexeme that a requirement can be followed by. -/
def Stops (lexeme : Lexeme) : Prop :=
  lexeme.IsComma ∨ lexeme.token = .endOfText

/-- A lexeme that a requirement can begin with. -/
def Begins (lexeme : Lexeme) : Prop :=
  lexeme.IsWord ∨ lexeme.token = .bang

instance (lexeme : Lexeme) : Decidable lexeme.Stops :=
  inferInstanceAs (Decidable (_ ∨ _))

instance (lexeme : Lexeme) : Decidable lexeme.Begins :=
  inferInstanceAs (Decidable (_ ∨ _))

/-- The first of some lexemes is one that a requirement can begin with. -/
def Starts (lexemes : List Lexeme) : Prop :=
  ∃ first ∈ lexemes.head?, first.Begins

theorem Starts.append {lexemes : List Lexeme} (h : Starts lexemes) (rest : List Lexeme) :
    Starts (lexemes ++ rest) := by
  obtain ⟨first, hfirst, hb⟩ := h
  refine ⟨first, ?_, hb⟩
  rw [List.head?_append, Option.mem_def.1 hfirst]
  rfl

theorem Starts.exists_cons {lexemes : List Lexeme} (h : Starts lexemes) :
    ∃ first rest, lexemes = first :: rest ∧ first.Begins := by
  obtain ⟨first, hfirst, hb⟩ := h
  obtain ⟨rest, rfl⟩ := List.head?_eq_some_iff.1 hfirst
  exact ⟨first, rest, rfl, hb⟩

theorem Begins.not_stops {lexeme : Lexeme} (h : lexeme.Begins) : ¬ lexeme.Stops := by
  unfold Stops IsComma
  rcases h with (h | h | h) | h <;> rw [h] <;> decide

end Lexeme

namespace Requirement

namespace Grammar

open Lexeme

/-! ## 1. Requirements -/

/-- The signs before a value that need not be there. -/
inductive EqualitySign : Token → Operator → Prop
  | equals : EqualitySign .equals .equals
  | doubleEquals : EqualitySign .doubleEquals .doubleEquals
  | notEquals : EqualitySign .notEquals .notEquals

/-- The signs before an integer. -/
inductive ComparisonSign : Token → Operator → Prop
  | greater : ComparisonSign .greater .greaterThan
  | less : ComparisonSign .less .lessThan

/-- The words before a list of values. -/
inductive MembershipWord : Token → Operator → Prop
  | isIn : MembershipWord .isIn .isIn
  | notIn : MembershipWord .notIn .notIn

/-- The forms of a requirement whose last lexeme can be told from those up to it, with the key, the
operator and the values they spell. -/
inductive Closed : List Lexeme → String → Operator → ValueSet → Prop
  | absent {bang key : Lexeme} (hb : bang.token = .bang) (hk : key.IsWord) :
      Closed [bang, key] key.literal .absent .empty
  | equality {key sign value : Lexeme} {operator : Operator} (hk : key.IsWord)
      (hs : EqualitySign sign.token operator) (hv : value.IsWord) :
      Closed [key, sign, value] key.literal operator (.singleton value.literal)
  | comparison {key sign value : Lexeme} {operator : Operator} (hk : key.IsWord)
      (hs : ComparisonSign sign.token operator) (hv : value.IsWord)
      (hi : (Text.int64? value.literal).isSome) :
      Closed [key, sign, value] key.literal operator (.singleton value.literal)
  | membership {key word openParen closeParen : Lexeme} {slots : List Lexeme} {operator : Operator}
      (hk : key.IsWord) (hw : MembershipWord word.token operator)
      (ho : openParen.token = .openParen) (hs : SlotList slots)
      (hc : closeParen.token = .closeParen) :
      Closed (key :: word :: openParen :: (slots ++ [closeParen])) key.literal operator
        (.ofList (slotTexts slots))

/-- The forms of a requirement. Those that are not closed could go on, and end because what follows
them stops them. -/
inductive Shape : List Lexeme → String → Operator → ValueSet → Prop
  | closed {lexemes : List Lexeme} {key : String} {operator : Operator} {values : ValueSet}
      (closed : Closed lexemes key operator values) : Shape lexemes key operator values
  | present {key : Lexeme} (hk : key.IsWord) : Shape [key] key.literal .present .empty
  | blank {key sign : Lexeme} {operator : Operator} (hk : key.IsWord)
      (hs : EqualitySign sign.token operator) :
      Shape [key, sign] key.literal operator (.singleton "")

/-- Lexemes have the form of a requirement with just its parts. -/
def Spells (lexemes : List Lexeme) (requirement : Requirement) : Prop :=
  Shape lexemes requirement.key requirement.operator requirement.values

/-- Requirements one after another, with a comma between any two. -/
inductive Listed : List Lexeme → List Requirement → Prop
  | single {lexemes : List Lexeme} {requirement : Requirement}
      (spells : Spells lexemes requirement) : Listed lexemes [requirement]
  | more {lexemes rest : List Lexeme} {comma : Lexeme} {requirement : Requirement}
      {requirements : List Requirement} (spells : Spells lexemes requirement)
      (hc : comma.IsComma) (listed : Listed rest requirements) :
      Listed (lexemes ++ comma :: rest) (requirement :: requirements)

/-- The language: no lexemes for no requirements, or requirements listed. -/
def Selection (lexemes : List Lexeme) (requirements : List Requirement) : Prop :=
  (lexemes = [] ∧ requirements = []) ∨ Listed lexemes requirements

/-! ## 2. Requirements that a comma follows -/

/-- Requirements that have a comma after each of them. -/
inductive Heads : List Lexeme → List Requirement → Prop
  | nil : Heads [] []
  | cons {lexemes rest : List Lexeme} {comma : Lexeme} {requirement : Requirement}
      {requirements : List Requirement} (spells : Spells lexemes requirement)
      (hc : comma.IsComma) (heads : Heads rest requirements) :
      Heads (lexemes ++ comma :: rest) (requirement :: requirements)

variable {lexemes front pre post rest : List Lexeme} {found comma : Lexeme}
  {requirement : Requirement} {requirements before : List Requirement}

theorem Listed.ne_nil (h : Listed lexemes requirements) : requirements ≠ [] := by
  cases h <;> simp

/-- What is listed after heads is listed with them. -/
theorem Heads.listed (h : Heads front before) (hl : Listed lexemes requirements) :
    Listed (front ++ lexemes) (before ++ requirements) := by
  induction h with
  | nil => exact hl
  | cons spells hc _ ih =>
    rw [List.append_assoc]
    exact .more spells hc ih

/-- A list of requirements is heads and a last one. -/
theorem Listed.exists_heads (h : Listed lexemes requirements) :
    ∃ front before last requirement, Heads front before ∧ Spells last requirement ∧
      lexemes = front ++ last ∧ requirements = before ++ [requirement] := by
  induction h with
  | single spells => exact ⟨[], [], _, _, .nil, spells, rfl, rfl⟩
  | more spells hc _ ih =>
    obtain ⟨front, before, last, requirement, heads, hlast, rfl, rfl⟩ := ih
    exact ⟨_, _, last, requirement, .cons spells hc heads, hlast, by simp, rfl⟩

/-- Listed requirements are heads when a comma follows. -/
theorem Listed.heads (h : Listed lexemes requirements) (hc : comma.IsComma) :
    Heads (lexemes ++ [comma]) requirements := by
  induction h with
  | single spells => exact .cons spells hc .nil
  | more spells hc' _ ih =>
    rw [List.append_assoc]
    exact .cons spells hc' ih

theorem Closed.starts {key : String} {operator : Operator} {values : ValueSet}
    (h : Closed lexemes key operator values) : Starts lexemes := by
  cases h with
  | absent hb _ => exact ⟨_, rfl, .inr hb⟩
  | equality hk _ _ => exact ⟨_, rfl, .inl hk⟩
  | comparison hk _ _ _ => exact ⟨_, rfl, .inl hk⟩
  | membership hk _ _ _ _ => exact ⟨_, rfl, .inl hk⟩

theorem Shape.starts {key : String} {operator : Operator} {values : ValueSet}
    (h : Shape lexemes key operator values) : Starts lexemes := by
  cases h with
  | closed closed => exact closed.starts
  | present hk => exact ⟨_, rfl, .inl hk⟩
  | blank hk _ => exact ⟨_, rfl, .inl hk⟩

theorem Spells.starts (h : Spells lexemes requirement) : Starts lexemes :=
  Shape.starts h

theorem Listed.starts (h : Listed lexemes requirements) : Starts lexemes := by
  cases h with
  | single spells => exact spells.starts
  | more spells _ _ => exact spells.starts.append _

/-- Heads begin like a requirement, unless there are none. -/
theorem Heads.starts (h : Heads front before) (hb : Starts rest) : Starts (front ++ rest) := by
  cases h with
  | nil => exact hb
  | cons spells _ _ =>
    rw [List.append_assoc]
    exact spells.starts.append _

theorem Heads.append {more : List Lexeme} (h : Heads front before) (hm : Heads more requirements) :
    Heads (front ++ more) (before ++ requirements) := by
  induction h with
  | nil => exact hm
  | cons spells hc _ ih =>
    rw [List.append_assoc]
    exact .cons spells hc ih

/-! ## 3. What goes wrong -/

/-- The beginning of a requirement, with the lexeme that cannot go on with it and what was
expected. -/
inductive Refusal : List Lexeme → Lexeme → String → Prop
  | key {bang found : Lexeme} (hb : bang.token = .bang) (hf : ¬ found.IsWord) :
      Refusal [bang] found Expected.word
  | operator {key found : Lexeme} (hk : key.IsWord) (hs : ¬ found.Stops)
      (hf : Operator.ofToken? found.token = none) : Refusal [key] found Expected.operator
  | value {key sign found : Lexeme} {operator : Operator} (hk : key.IsWord)
      (hs : EqualitySign sign.token operator ∨ ComparisonSign sign.token operator)
      (hf : ¬ found.Stops) (hw : ¬ found.IsWord) : Refusal [key, sign] found Expected.word
  | openParen {key word found : Lexeme} {operator : Operator} (hk : key.IsWord)
      (hw : MembershipWord word.token operator) (hf : found.token ≠ .openParen) :
      Refusal [key, word] found Expected.openParen
  | firstSlot {key word openParen found : Lexeme} {operator : Operator} (hk : key.IsWord)
      (hw : MembershipWord word.token operator) (ho : openParen.token = .openParen)
      (hf : ¬ (found.IsWord ∨ found.IsComma)) (hc : found.token ≠ .closeParen) :
      Refusal [key, word, openParen] found Expected.firstSlot
  | slots {key word openParen found : Lexeme} {slots : List Lexeme} {operator : Operator}
      {expected : String} (hk : key.IsWord) (hw : MembershipWord word.token operator)
      (ho : openParen.token = .openParen) (refusal : SlotRefusal slots found expected) :
      Refusal (key :: word :: openParen :: slots) found expected

/-- A comparison whose bound is no integer, with the lexeme after it. -/
inductive BadBound : List Lexeme → Lexeme → String → Prop
  | blank {key sign found : Lexeme} {operator : Operator} (hk : key.IsWord)
      (hs : ComparisonSign sign.token operator) (hf : found.Stops) : BadBound [key, sign] found ""
  | word {key sign value found : Lexeme} {operator : Operator} (hk : key.IsWord)
      (hs : ComparisonSign sign.token operator) (hv : value.IsWord)
      (hi : Text.int64? value.literal = none) : BadBound [key, sign, value] found value.literal

/-- What stands before a lexeme that cannot stand where it stands, from the start of the text or
from a comma on, with the fault it makes. -/
inductive Halt : List Lexeme → Lexeme → Fault → Prop
  | requirement {pre : List Lexeme} {found : Lexeme} {expected : String}
      (refusal : Refusal pre found expected) :
      Halt pre found (.inRequirement (.unexpected found.literal expected))
  | separator {pre : List Lexeme} {found : Lexeme} {requirement : Requirement}
      (closed : Closed pre requirement.key requirement.operator requirement.values)
      (hf : ¬ found.Stops) : Halt pre found (.unexpected found.literal Expected.separator)
  | afterComma {pre : List Lexeme} {comma found : Lexeme} {requirement : Requirement}
      (spells : Spells pre requirement) (hc : comma.IsComma) (hf : ¬ found.Begins) :
      Halt (pre ++ [comma]) found (.unexpected found.literal Expected.afterComma)

theorem Refusal.starts {expected : String} (h : Refusal pre found expected) : Starts pre := by
  cases h with
  | key hb _ => exact ⟨_, rfl, .inr hb⟩
  | operator hk _ _ => exact ⟨_, rfl, .inl hk⟩
  | value hk _ _ _ => exact ⟨_, rfl, .inl hk⟩
  | openParen hk _ _ => exact ⟨_, rfl, .inl hk⟩
  | firstSlot hk _ _ _ _ => exact ⟨_, rfl, .inl hk⟩
  | slots hk _ _ _ => exact ⟨_, rfl, .inl hk⟩

theorem BadBound.starts {value : String} (h : BadBound pre found value) : Starts pre := by
  cases h with
  | blank hk _ _ => exact ⟨_, rfl, .inl hk⟩
  | word hk _ _ _ => exact ⟨_, rfl, .inl hk⟩

theorem Halt.starts {fault : Fault} (h : Halt pre found fault) : Starts pre := by
  cases h with
  | requirement refusal => exact refusal.starts
  | separator closed _ => exact closed.starts
  | afterComma spells _ _ => exact spells.starts.append _

/-- What some lexemes come to, the end of the text among them. -/
inductive Verdict : List Lexeme → Except Fault (List Requirement) → Prop
  | nothing {last : Lexeme} {post : List Lexeme} (he : last.token = .endOfText) :
      Verdict (last :: post) (.ok [])
  | start {found : Lexeme} {post : List Lexeme} (hb : ¬ found.Begins)
      (he : found.token ≠ .endOfText) :
      Verdict (found :: post) (.error (.unexpected found.literal Expected.start))
  | listed {lexemes post : List Lexeme} {last : Lexeme} {requirements : List Requirement}
      (listed : Listed lexemes requirements) (he : last.token = .endOfText) :
      Verdict (lexemes ++ last :: post) (.ok requirements)
  | halted {front pre post : List Lexeme} {found : Lexeme} {before : List Requirement}
      {fault : Fault} (heads : Heads front before) (halt : Halt pre found fault) :
      Verdict (front ++ (pre ++ found :: post)) (.error fault)
  | badBound {front pre post : List Lexeme} {found : Lexeme} {before : List Requirement}
      {value : String} (heads : Heads front before) (bad : BadBound pre found value) :
      Verdict (front ++ (pre ++ found :: post)) (.error (.inRequirement (.boundNotInteger value)))

/-! ## 4. Requirements of words -/

/-- The words among some lexemes can be keys and values. -/
def Sound (lexemes : List Lexeme) : Prop :=
  ∀ lexeme ∈ lexemes, lexeme.IsWord → lexeme.literal ≠ "" ∧ Text.isIdentifier lexeme.literal = true

theorem Sound.mono (h : Sound lexemes) (hs : rest ⊆ lexemes) : Sound rest :=
  fun lexeme hmem => h lexeme (hs hmem)

/-- Where a key and values can be spelled, only the operator can object to them. -/
theorem fault?_eq {key : String} {operator : Operator} {values : ValueSet}
    (hk : key ≠ "" ∧ Text.isIdentifier key = true)
    (hv : ∀ value ∈ values, Text.isIdentifier value = true) :
    Requirement.fault? key operator values = operator.fault? values := by
  have hfind : (values.toList.find? fun value => !Text.isIdentifier value) = none := by
    rw [List.find?_eq_none]
    intro value hmem
    simp [hv value hmem]
  simp [Requirement.fault?, hk.1, hk.2, hfind]

theorem fault?_eq_none {key : String} {operator : Operator} {values : ValueSet}
    (hk : key ≠ "" ∧ Text.isIdentifier key = true)
    (hv : ∀ value ∈ values, Text.isIdentifier value = true)
    (ho : operator.fault? values = none) : Requirement.fault? key operator values = none := by
  rw [fault?_eq hk hv, ho]

/-- The texts of slots can be values. -/
theorem isIdentifier_of_mem_slotTexts {slots : List Lexeme} (h : SlotRun slots)
    (hs : Sound slots) : ∀ text ∈ slotTexts slots, Text.isIdentifier text = true := by
  induction h with
  | word hw =>
    rw [slotTexts_word hw]
    simpa using (hs _ (by simp) hw).2
  | comma hc => simp [slotTexts_comma hc, slotTexts_nil]
  | wordComma hw hc _ ih =>
    have ih := ih (hs.mono (by simp))
    rw [slotTexts_comma hc] at ih
    rw [slotTexts_word_comma hw hc]
    intro text hmem
    rcases List.mem_cons.1 hmem with rfl | hmem
    · exact (hs _ (by simp) hw).2
    · exact ih text (by simp [hmem])
  | commaWord hc _ _ ih =>
    rw [slotTexts_comma hc]
    intro text hmem
    rcases List.mem_cons.1 hmem with rfl | hmem
    · exact Text.isIdentifier_empty
    · exact ih (hs.mono (by simp)) text hmem
  | commas hc ho _ ih =>
    rw [slotTexts_comma hc, slotTexts_comma ho]
    intro text hmem
    simp only [List.mem_cons] at hmem
    rcases hmem with rfl | rfl | hmem
    · exact Text.isIdentifier_empty
    · exact Text.isIdentifier_empty
    · exact ih (hs.mono fun _ h => by simp [h]) text hmem

theorem slotTexts_ne_nil (slots : List Lexeme) : slotTexts slots ≠ [] := by
  simp [slotTexts, List.splitOnP_ne_nil]

theorem isEmpty_ofList {values : List String} (h : values ≠ []) :
    (ValueSet.ofList values).isEmpty = false := by
  obtain ⟨value, rest, rfl⟩ := List.exists_cons_of_ne_nil h
  exact ValueSet.isEmpty_eq_false_of_mem (ValueSet.mem_ofList.2 List.mem_cons_self)

theorem fault?_singleton_of_equality {sign : Token} {operator : Operator} (value : String)
    (h : EqualitySign sign operator) : operator.fault? (.singleton value) = none := by
  cases h <;> rfl

theorem fault?_singleton_of_comparison {sign : Token} {operator : Operator} {value : String}
    (h : ComparisonSign sign operator) (hi : (Text.int64? value).isSome) :
    operator.fault? (.singleton value) = none := by
  cases h <;> simp [Operator.fault?, ValueSet.singleton, hi]

theorem fault?_singleton_of_no_integer {sign : Token} {operator : Operator} {value : String}
    (h : ComparisonSign sign operator) (hi : Text.int64? value = none) :
    operator.fault? (.singleton value) = some (.boundNotInteger value) := by
  cases h <;> simp [Operator.fault?, ValueSet.singleton, hi]

theorem fault?_of_membership {word : Token} {operator : Operator} {values : ValueSet}
    (h : MembershipWord word operator) (hv : values.isEmpty = false) :
    operator.fault? values = none := by
  cases h <;> simp [Operator.fault?, hv]

/-- A form of a requirement made of sound words spells one. -/
theorem Shape.exists_requirement {key : String} {operator : Operator} {values : ValueSet}
    (h : Shape lexemes key operator values) (hs : Sound lexemes) :
    ∃ requirement : Requirement, requirement.key = key ∧ requirement.operator = operator ∧
      requirement.values = values := by
  suffices hf : Requirement.fault? key operator values = none from
    ⟨⟨key, operator, values, hf⟩, rfl, rfl, rfl⟩
  cases h with
  | closed closed =>
    cases closed with
    | absent hb hk => exact fault?_eq_none (hs _ (by simp) hk) (by simp) rfl
    | equality hk hsign hv =>
      refine fault?_eq_none (hs _ (by simp) hk) ?_ (fault?_singleton_of_equality _ hsign)
      simpa using (hs _ (by simp) hv).2
    | comparison hk hsign hv hi =>
      refine fault?_eq_none (hs _ (by simp) hk) ?_ (fault?_singleton_of_comparison hsign hi)
      simpa using (hs _ (by simp) hv).2
    | @membership _ _ _ _ slots _ hk hw _ hslots _ =>
      refine fault?_eq_none (hs _ (by simp) hk) ?_
        (fault?_of_membership hw (isEmpty_ofList (slotTexts_ne_nil slots)))
      intro value hmem
      rw [ValueSet.mem_ofList] at hmem
      by_cases hne : slots = []
      · subst hne
        rw [slotTexts_nil, List.mem_singleton] at hmem
        subst hmem
        exact Text.isIdentifier_empty
      · have hs : Sound slots := hs.mono fun l hl => by simp [hl]
        exact isIdentifier_of_mem_slotTexts (hslots.slotRun hne) hs value hmem
  | present hk => exact fault?_eq_none (hs _ (by simp) hk) (by simp) rfl
  | blank hk hsign =>
    exact fault?_eq_none (hs _ (by simp) hk) (by simp) (fault?_singleton_of_equality _ hsign)

theorem Shape.exists_spells {key : String} {operator : Operator} {values : ValueSet}
    (h : Shape lexemes key operator values) (hs : Sound lexemes) :
    ∃ requirement, Spells lexemes requirement := by
  obtain ⟨requirement, rfl, rfl, rfl⟩ := h.exists_requirement hs
  exact ⟨requirement, h⟩

/-- The lexemes of a text are sound. -/
theorem sound_body (text : List Char) : Sound (body text) := by
  intro lexeme hmem hw
  have hl := literal_of_mem_body hmem
  have hne : lexeme.literal ≠ "" := by
    intro h
    exact hl.ne_nil (by rw [h]; rfl)
  refine ⟨hne, ?_⟩
  rw [Text.isIdentifier_iff]
  unfold IsWord at hw
  generalize lexeme.token = token at hl hw
  generalize lexeme.literal.toList = chars at hl
  cases hl with
  | word _ all => exact all
  | symbol mem =>
    have table : ∀ entry ∈ Token.symbols,
        entry.2 ≠ .identifier ∧ entry.2 ≠ .isIn ∧ entry.2 ≠ .notIn := by decide
    have := table _ mem
    simp [this] at hw

/-! ## 5. Every sequence of lexemes comes to something -/

theorem ofToken?_eq_some {token : Token} {operator : Operator}
    (h : Operator.ofToken? token = some operator) :
    EqualitySign token operator ∨ ComparisonSign token operator ∨
      MembershipWord token operator := by
  cases token <;> cases h
  · exact .inl .doubleEquals
  · exact .inl .equals
  · exact .inr (.inl .greater)
  · exact .inr (.inr .isIn)
  · exact .inr (.inl .less)
  · exact .inl .notEquals
  · exact .inr (.inr .notIn)

/-- What some lexemes that begin a requirement turn out to be. -/
inductive RequirementCase (lexemes : List Lexeme) : Prop
  | read {pre post : List Lexeme} {found : Lexeme} {requirement : Requirement}
      (spells : Spells pre requirement) (hf : found.Stops) (eq : lexemes = pre ++ found :: post)
  | readOn {pre post : List Lexeme} {found : Lexeme} {requirement : Requirement}
      (closed : Closed pre requirement.key requirement.operator requirement.values)
      (hf : ¬ found.Stops) (eq : lexemes = pre ++ found :: post)
  | refused {pre post : List Lexeme} {found : Lexeme} {expected : String}
      (refusal : Refusal pre found expected) (eq : lexemes = pre ++ found :: post)
  | badBound {pre post : List Lexeme} {found : Lexeme} {value : String}
      (bad : BadBound pre found value) (eq : lexemes = pre ++ found :: post)

/-- An end among lexemes stands behind every other one. -/
theorem exists_end_of_cons {first : Lexeme} (h : ∃ e ∈ first :: rest, e.token = .endOfText)
    (hf : first.token ≠ .endOfText) : ∃ second tail, rest = second :: tail ∧
      ∃ e ∈ second :: tail, e.token = .endOfText := by
  obtain ⟨e, hmem, he⟩ := h
  rcases List.mem_cons.1 hmem with rfl | hmem
  · exact absurd he hf
  · cases rest with
    | nil => simp at hmem
    | cons second tail => exact ⟨second, tail, rfl, e, hmem, he⟩

theorem RequirementCase.of_closed {key : String} {operator : Operator} {values : ValueSet}
    (closed : Closed pre key operator values) (hs : Sound (pre ++ found :: post)) :
    RequirementCase (pre ++ found :: post) := by
  obtain ⟨requirement, rfl, rfl, rfl⟩ :=
    (Shape.closed closed).exists_requirement (hs.mono (List.subset_append_left _ _))
  by_cases hf : found.Stops
  · exact .read (.closed closed) hf rfl
  · exact .readOn closed hf rfl

theorem bang_cases {bang : Lexeme} (hs : Sound (bang :: rest)) (hb : bang.token = .bang)
    (hend : ∃ e ∈ bang :: rest, e.token = .endOfText) : RequirementCase (bang :: rest) := by
  obtain ⟨key, tail, rfl, he⟩ := exists_end_of_cons hend (by simp [hb])
  by_cases hk : key.IsWord
  · obtain ⟨found, post, rfl, _⟩ := exists_end_of_cons he hk.token_ne_end
    exact .of_closed (.absent hb hk) hs
  · exact .refused (.key hb hk) rfl

theorem equality_cases {key sign : Lexeme} {operator : Operator}
    (hs : Sound (key :: sign :: rest)) (hk : key.IsWord) (hsign : EqualitySign sign.token operator)
    (he : ∃ e ∈ rest, e.token = .endOfText) : RequirementCase (key :: sign :: rest) := by
  cases rest with
  | nil => simp at he
  | cons value tail =>
    by_cases hstop : value.Stops
    · obtain ⟨requirement, spells⟩ := (Shape.blank hk hsign).exists_spells (hs.mono (by simp))
      exact .read spells hstop rfl
    · by_cases hv : value.IsWord
      · obtain ⟨found, post, rfl, _⟩ := exists_end_of_cons he hv.token_ne_end
        exact .of_closed (.equality hk hsign hv) hs
      · exact .refused (.value hk (.inl hsign) hstop hv) rfl

theorem comparison_cases {key sign : Lexeme} {operator : Operator}
    (hs : Sound (key :: sign :: rest)) (hk : key.IsWord)
    (hsign : ComparisonSign sign.token operator) (he : ∃ e ∈ rest, e.token = .endOfText) :
    RequirementCase (key :: sign :: rest) := by
  cases rest with
  | nil => simp at he
  | cons value tail =>
    by_cases hstop : value.Stops
    · exact .badBound (.blank hk hsign hstop) rfl
    · by_cases hv : value.IsWord
      · obtain ⟨found, post, rfl, _⟩ := exists_end_of_cons he hv.token_ne_end
        cases hi : Text.int64? value.literal with
        | none => exact .badBound (.word hk hsign hv hi) rfl
        | some bound => exact .of_closed (.comparison hk hsign hv (by simp [hi])) hs
      · exact .refused (.value hk (.inr hsign) hstop hv) rfl

theorem membership_cases {key word : Lexeme} {operator : Operator}
    (hs : Sound (key :: word :: rest)) (hk : key.IsWord)
    (hw : MembershipWord word.token operator) (hend : ∃ e ∈ rest, e.token = .endOfText) :
    RequirementCase (key :: word :: rest) := by
  cases rest with
  | nil => simp at hend
  | cons openParen tail =>
    by_cases ho : openParen.token = .openParen
    · obtain ⟨first, tail, rfl, he⟩ := exists_end_of_cons hend (by simp [ho])
      by_cases hslot : first.IsWord ∨ first.IsComma
      · rcases slot_cases he ⟨first, rfl, hslot⟩ with ⟨run, hc, eq⟩ | ⟨refusal, eq⟩
        · rename_i slots closeParen post
          rw [eq] at he hs ⊢
          have hpost : ∃ e ∈ closeParen :: post, e.token = .endOfText := by
            obtain ⟨e, hmem, htoken⟩ := he
            rcases List.mem_append.1 hmem with hmem | hmem
            · rcases run.slotList.wordOrComma e hmem with h | h
              · exact absurd htoken h.token_ne_end
              · simp [IsComma, htoken] at h
            · exact ⟨e, hmem, htoken⟩
          obtain ⟨found, post, rfl, _⟩ := exists_end_of_cons hpost (by simp [hc])
          have closed := Closed.membership hk hw ho run.slotList hc
          have hsplit : key :: word :: openParen :: (slots ++ closeParen :: found :: post) =
              key :: word :: openParen :: (slots ++ [closeParen]) ++ found :: post := by simp
          rw [hsplit] at hs ⊢
          exact .of_closed closed hs
        · rename_i slots found post expected
          rw [eq]
          exact .refused (.slots hk hw ho refusal) rfl
      · by_cases hc : first.token = .closeParen
        · obtain ⟨found, post, rfl, _⟩ := exists_end_of_cons he (by simp [hc])
          exact .of_closed (.membership hk hw ho SlotList.nil hc) hs
        · exact .refused (.firstSlot hk hw ho hslot hc) rfl
    · exact .refused (.openParen hk hw ho) rfl

/-- Lexemes that begin a requirement and end somewhere are one up to a lexeme that stops it or
cannot follow it, or go wrong. -/
theorem requirement_cases {first : Lexeme} (hs : Sound (first :: rest)) (hb : first.Begins)
    (hend : ∃ e ∈ first :: rest, e.token = .endOfText) : RequirementCase (first :: rest) := by
  rcases hb with hk | hb
  · obtain ⟨second, tail, rfl, he⟩ := exists_end_of_cons hend hk.token_ne_end
    by_cases hstop : second.Stops
    · obtain ⟨requirement, spells⟩ := (Shape.present hk).exists_spells (hs.mono (by simp))
      exact .read spells hstop rfl
    · have hne : second.token ≠ .endOfText := fun h => hstop (.inr h)
      obtain ⟨third, tail, rfl, he'⟩ := exists_end_of_cons he hne
      cases hop : Operator.ofToken? second.token with
      | none => exact .refused (.operator hk hstop hop) rfl
      | some operator =>
        rcases ofToken?_eq_some hop with hsign | hsign | hword
        · exact equality_cases hs hk hsign he'
        · exact comparison_cases hs hk hsign he'
        · exact membership_cases hs hk hword he'
  · exact bang_cases hs hb hend

/-- A verdict on what begins after heads is one on the whole. -/
theorem Verdict.after_heads {result : Except Fault (List Requirement)} (v : Verdict lexemes result)
    (h : Heads front before) (hb : Starts lexemes) :
    Verdict (front ++ lexemes) (result.map fun more => before ++ more) := by
  cases v with
  | nothing he => simp [Starts, Begins, IsWord, he] at hb
  | start hnot _ => simp [Starts, hnot] at hb
  | listed listed he =>
    rw [← List.append_assoc]
    exact .listed (h.listed listed) he
  | halted heads halt =>
    rw [← List.append_assoc]
    exact .halted (h.append heads) halt
  | badBound heads bad =>
    rw [← List.append_assoc]
    exact .badBound (h.append heads) bad

/-- Every sequence of lexemes that ends comes to something. -/
theorem exists_verdict (hs : Sound lexemes)
    (hend : ∃ e ∈ lexemes.getLast?, e.token = .endOfText) : ∃ result, Verdict lexemes result := by
  -- By induction on the number of lexemes: a requirement and its comma go off the front, and what
  -- follows them has a verdict of its own.
  induction hn : lexemes.length using Nat.strongRecOn generalizing lexemes with
  | ind n ih =>
    subst hn
    cases lexemes with
    | nil => simp at hend
    | cons first rest =>
      have he : ∃ e ∈ first :: rest, e.token = .endOfText := by
        obtain ⟨e, hlast, htoken⟩ := hend
        exact ⟨e, List.mem_of_getLast? hlast, htoken⟩
      by_cases hb : first.Begins
      · rcases requirement_cases hs hb he with ⟨spells, hf, eq⟩ | ⟨closed, hf, eq⟩ | ⟨refusal, eq⟩ |
          ⟨bad, eq⟩
        · rename_i pre post found requirement
          rw [eq] at hend hs ih ⊢
          rcases hf with hc | hf
          · cases post with
            | nil =>
              have : found.token = .endOfText := by simpa using hend
              simp [IsComma, this] at hc
            | cons second tail =>
              by_cases hb : second.Begins
              · have hlast : ∃ e ∈ (second :: tail).getLast?, e.token = .endOfText := by
                  simpa [List.getLast?_append, List.getLast?_cons_cons] using hend
                obtain ⟨_, v⟩ := ih _ (by simp; omega)
                  (hs.mono fun l hl => by simp_all) hlast rfl
                have heads := Heads.cons spells hc .nil
                exact ⟨_, by simpa using v.after_heads heads ⟨second, rfl, hb⟩⟩
              · have v := @Verdict.halted _ _ tail _ _ _ .nil (.afterComma spells hc hb)
                exact ⟨_, by simpa using v⟩
          · exact ⟨_, .listed (.single spells) hf⟩
        · rw [eq]
          exact ⟨_, .halted .nil (.separator closed hf)⟩
        · rw [eq]
          exact ⟨_, .halted .nil (.requirement refusal)⟩
        · rw [eq]
          exact ⟨_, .badBound .nil bad⟩
      · by_cases hend : first.token = .endOfText
        · exact ⟨_, .nothing hend⟩
        · exact ⟨_, .start hb hend⟩

/-! ## 6. What comes before a refused lexeme can be completed -/

theorem body_zero : body ['0'] = [⟨.identifier, "0"⟩] := by
  have hword : ∀ c ∈ ['0'], Text.isWordChar c = true := by
    intro c hc
    rw [List.mem_singleton.1 hc]
    decide
  exact body_literal (.word (by simp) hword)

theorem body_open : body ['('] = [⟨.openParen, "("⟩] :=
  body_literal (.symbol (by decide))

theorem body_close : body [')'] = [⟨.closeParen, ")"⟩] :=
  body_literal (.symbol (by decide))

theorem body_append_close (before : List Char) :
    body (before ++ [')']) = body before ++ [⟨.closeParen, ")"⟩] := by
  rw [body_separator (by decide) (by decide) (by decide), body_close, body_nil, List.append_nil]

theorem body_open_close : body ['(', ')'] = [⟨.openParen, "("⟩, ⟨.closeParen, ")"⟩] := by
  show body (['('] ++ [')']) = _
  rw [body_append_close, body_open]
  rfl

theorem body_zero_close : body ['0', ')'] = [⟨.identifier, "0"⟩, ⟨.closeParen, ")"⟩] := by
  show body (['0'] ++ [')']) = _
  rw [body_append_close, body_zero]
  rfl

/-- A form of a requirement whose last lexemes some text has is completed by that text. -/
theorem Shape.completes {ending : List Char} {key : String} {operator : Operator}
    {values : ValueSet} (shape : Shape (pre ++ rest) key operator values)
    (hbody : body ending = rest) (hs : Sound pre) :
    ∃ ending requirement, Spells (pre ++ body ending) requirement := by
  refine ⟨ending, ?_⟩
  rw [hbody]
  apply shape.exists_spells
  intro lexeme hmem
  rcases List.mem_append.1 hmem with hmem | hmem
  · exact hs lexeme hmem
  · exact sound_body ending lexeme (by rw [hbody]; exact hmem)

/-- Some text completes the beginning of a requirement. -/
theorem Refusal.completable {expected : String} (h : Refusal pre found expected)
    (hs : Sound pre) : ∃ ending requirement, Spells (pre ++ body ending) requirement := by
  have hzero : IsWord ⟨.identifier, "0"⟩ := .inl rfl
  cases h with
  | key hb _ => exact Shape.completes (.closed (.absent hb hzero)) body_zero hs
  | operator hk _ _ => exact Shape.completes (.present hk) body_nil hs
  | value hk hsign _ _ =>
    rcases hsign with hsign | hsign
    · exact Shape.completes (.closed (.equality hk hsign hzero)) body_zero hs
    · exact Shape.completes (.closed (.comparison hk hsign hzero rfl)) body_zero hs
  | openParen hk hw _ =>
    exact Shape.completes (.closed (.membership hk hw rfl SlotList.nil rfl))
      body_open_close hs
  | firstSlot hk hw ho _ _ =>
    exact Shape.completes (.closed (.membership hk hw ho SlotList.nil rfl)) body_close hs
  | slots hk hw ho refusal =>
    -- The list lacks its parenthesis, and a word before it where two commas were taken.
    rcases refusal.completable with run | run
    · exact Shape.completes (.closed (.membership hk hw ho run.slotList rfl)) body_close hs
    · have hclose : (⟨.closeParen, ")"⟩ : Lexeme).token = .closeParen := rfl
      have closed := Closed.membership hk hw ho (run _ hzero).slotList hclose
      rw [List.append_assoc] at closed
      exact Shape.completes (.closed closed) body_zero_close hs

/-- Some text completes what comes before a lexeme that cannot stand where it stands. -/
theorem Halt.completable {fault : Fault} (h : Halt pre found fault) (hs : Sound pre) :
    ∃ ending requirements, Listed (pre ++ body ending) requirements := by
  cases h with
  | requirement refusal =>
    obtain ⟨ending, _, spells⟩ := refusal.completable hs
    exact ⟨ending, _, .single spells⟩
  | @separator _ _ requirement closed _ =>
    refine ⟨[], [requirement], ?_⟩
    rw [body_nil, List.append_nil]
    exact .single (.closed closed)
  | @afterComma pre comma _ requirement spells hc _ =>
    have hword : Shape (body ['0']) "0" .present .empty := by
      rw [body_zero]
      have hword : IsWord ⟨.identifier, "0"⟩ := .inl rfl
      exact .present hword
    obtain ⟨last, hlast⟩ := hword.exists_spells (sound_body _)
    refine ⟨['0'], [requirement, last], ?_⟩
    rw [List.append_assoc]
    exact .more spells hc (.single hlast)

end Grammar

end Requirement

end LabelSelector
