/-
LabelSelector.Requirement.Parser — reading the requirements that a selector text lists.

    selector    = [requirement {"," requirement}]
    requirement = "!" key | key | key sign [value] | key ("in" | "notin") "(" slots ")"
    sign        = "=" | "==" | "!=" | ">" | "<"
    slots       = [value] {"," [value]}

A key or a value is any word, the keywords `in` and `notin` among them; only between a key and its
values are these two operators. A value that is left out is the empty text, and so is an empty slot
of a list of values. Two commas that follow each other in a list are taken together, and then a
value or another comma has to follow; so a list cannot end in two commas, in four, and so on.

The rules look one lexeme ahead and never back. A fault names the lexeme that cannot stand where it
stands and what could; within a requirement it is wrapped once in `Fault.inRequirement`.
-/
import LabelSelector.Reading
import LabelSelector.Requirement

namespace LabelSelector

/-- The operator that a lexeme of a kind between a key and its values stands for. -/
def Operator.ofToken? : Token → Option Operator
  | .isIn => some .isIn
  | .notIn => some .notIn
  | .equals => some .equals
  | .doubleEquals => some .doubleEquals
  | .notEquals => some .notEquals
  | .greater => some .greaterThan
  | .less => some .lessThan
  | _ => none

namespace Requirement

/-! ## What a fault says was expected -/

namespace Expected

/-- At the start of a text. -/
def start : String := "'!', identifier, or 'end of string'"

/-- After a comma between requirements. -/
def afterComma : String := "identifier after ','"

/-- After a requirement. -/
def separator : String := "',' or 'end of string'"

/-- Where a key or a single value has to stand. -/
def word : String := "identifier"

/-- After a key. -/
def operator : String := Operator.listing Operator.binary

/-- After `in` or `notin`. -/
def openParen : String := "'('"

/-- At the start of a list of values. -/
def firstSlot : String := "',', ')', or identifier"

/-- After a word in a list of values. -/
def slotEnd : String := "',' or ')'"

/-- After a comma in a list of values. -/
def slot : String := "',', or identifier"

/-- After a list of values. -/
def closeParen : String := "')'"

end Expected

namespace Parser

open Reading

/-! ## One requirement -/

/-- Reads a key, and the operator where the key alone decides it: absence with a `!` before it,
presence where nothing but a comma or the end of the text follows. -/
def key : Reading (String × Option Operator) := do
  let first ← takeWord
  if first.token = .bang then
    let word ← takeWord
    if word.token = .identifier then
      return (word.literal, some .absent)
    else
      reject word Expected.word
  else if first.token = .identifier then
    let following ← peekWord
    if following.token = .endOfText ∨ following.token = .comma then
      return (first.literal, some .present)
    else
      return (first.literal, none)
  else
    reject first Expected.word

/-- Reads the operator between a key and its values. -/
def operator : Reading Operator := do
  let lexeme ← takeOperator
  match Operator.ofToken? lexeme.token with
  | some operator => return operator
  | none => reject lexeme Expected.operator

/-- The values found when a comma is taken: one before any value shows an empty first slot. -/
def opened (found : ValueSet) : ValueSet :=
  if found.isEmpty then .singleton "" else found

/-- Reads on in a list of values: a word with what follows it in view, or a comma and the empty
slots it shows. A comma may show an empty first slot (`opened`), one before `)` shows an empty last
slot, and one right before another comma, which is taken with it, an empty slot between the two. -/
def slotRound (found : ValueSet) : Reading (Round ValueSet ValueSet) := do
  let lexeme ← takeWord
  match lexeme.token with
  | .identifier =>
    let following ← peekWord
    match following.token with
    | .comma => return .again (found.insert lexeme.literal)
    | .closeParen => return .done (found.insert lexeme.literal)
    | _ => reject following Expected.slotEnd
  | .comma =>
    let following ← peekWord
    match following.token with
    | .closeParen => return .done ((opened found).insert "")
    | .comma =>
      let _ ← takeWord
      return .again ((opened found).insert "")
    | _ => return .again (opened found)
  | _ => reject lexeme Expected.slot

/-- A round of a list of values takes at least one lexeme before it asks for another. -/
theorem slotRound_productive : Productive slotRound := by
  intro found tape found' tape' h
  obtain ⟨lexeme, after, taken, h⟩ := bind_eq_ok.1 h
  cases ht : lexeme.token with
  | identifier =>
    have shorter := length_lt_of_takeWord taken (by simp [ht])
    simp only [ht] at h
    obtain ⟨following, last, peeked, h⟩ := bind_eq_ok.1 h
    cases eq_of_peekWord peeked
    cases hf : following.token <;> simp only [hf] at h <;> cases h
    exact shorter
  | comma =>
    have shorter := length_lt_of_takeWord taken (by simp [ht])
    simp only [ht] at h
    obtain ⟨following, last, peeked, h⟩ := bind_eq_ok.1 h
    cases eq_of_peekWord peeked
    cases hf : following.token with
    | comma =>
      simp only [hf] at h
      obtain ⟨_, last', taken', h⟩ := bind_eq_ok.1 h
      cases h
      have further := Forward.takeWord after
      rw [taken'] at further
      exact Nat.lt_of_le_of_lt further shorter
    | closeParen =>
      simp only [hf] at h
      cases h
    | _ =>
      simp only [hf] at h
      cases h
      exact shorter
  | _ =>
    simp only [ht] at h
    cases h

/-- Reads the values of a list up to the closing parenthesis, which stays in view. -/
def slots : Reading ValueSet :=
  loop slotRound slotRound_productive .empty

/-- Reads a list of values with its parentheses. The list `()` holds one empty value. -/
def valueList : Reading ValueSet := do
  let first ← takeWord
  if first.token = .openParen then
    let following ← peekWord
    match following.token with
    | .identifier | .comma =>
      let found ← slots
      let last ← takeWord
      if last.token = .closeParen then
        return found
      else
        reject last Expected.closeParen
    | .closeParen =>
      let _ ← takeWord
      return .singleton ""
    | _ => reject following Expected.firstSlot
  else
    reject first Expected.openParen

/-- Reads the value after a sign; where a comma or the end of the text follows it is empty. -/
def singleValue : Reading ValueSet := do
  let following ← peekWord
  if following.token = .endOfText ∨ following.token = .comma then
    return .singleton ""
  else
    let word ← takeWord
    if word.token = .identifier then
      return .singleton word.literal
    else
      reject word Expected.word

/-- Reads the values that an operator takes. An operator without values never stands after a
key. -/
def valuesOf (operator : Operator) : Reading ValueSet :=
  match operator with
  | .isIn | .notIn => valueList
  | .equals | .doubleEquals | .notEquals | .greaterThan | .lessThan => singleValue
  | .present | .absent => throw (.unexpected operator.text Expected.operator)

/-- Reads a requirement. -/
def requirement : Reading Requirement := do
  let (key, decided) ← key
  match decided with
  | some operator => ofResult (build key operator .empty)
  | none =>
    let operator ← operator
    let values ← valuesOf operator
    ofResult (build key operator values)

/-! ### Nothing is put back -/

theorem key_forward : Forward key := by
  refine Forward.bind Forward.takeWord fun first => ?_
  split
  · refine Forward.bind Forward.takeWord fun word => ?_
    split
    · exact Forward.pure _
    · exact Forward.reject _ _
  · split
    · refine Forward.bind Forward.peekWord fun following => ?_
      split
      · exact Forward.pure _
      · exact Forward.pure _
    · exact Forward.reject _ _

theorem operator_forward : Forward operator := by
  refine Forward.bind Forward.takeOperator fun lexeme => ?_
  split
  · exact Forward.pure _
  · exact Forward.reject _ _

theorem slotRound_forward (found : ValueSet) : Forward (slotRound found) := by
  refine Forward.bind Forward.takeWord fun lexeme => ?_
  split
  · refine Forward.bind Forward.peekWord fun following => ?_
    split
    · exact Forward.pure _
    · exact Forward.pure _
    · exact Forward.reject _ _
  · refine Forward.bind Forward.peekWord fun following => ?_
    split
    · exact Forward.pure _
    · exact Forward.bind Forward.takeWord fun _ => Forward.pure _
    · exact Forward.pure _
  · exact Forward.reject _ _

theorem slots_forward : Forward slots :=
  Forward.loop slotRound_forward _

theorem valueList_forward : Forward valueList := by
  refine Forward.bind Forward.takeWord fun first => ?_
  split
  · refine Forward.bind Forward.peekWord fun following => ?_
    have list : Forward (do
        let found ← slots
        let last ← takeWord
        if last.token = .closeParen then return found else reject last Expected.closeParen) := by
      refine Forward.bind slots_forward fun found => Forward.bind Forward.takeWord fun last => ?_
      split
      · exact Forward.pure _
      · exact Forward.reject _ _
    split
    · exact list
    · exact list
    · exact Forward.bind Forward.takeWord fun _ => Forward.pure _
    · exact Forward.reject _ _
  · exact Forward.reject _ _

theorem singleValue_forward : Forward singleValue := by
  refine Forward.bind Forward.peekWord fun following => ?_
  split
  · exact Forward.pure _
  · refine Forward.bind Forward.takeWord fun word => ?_
    split
    · exact Forward.pure _
    · exact Forward.reject _ _

theorem valuesOf_forward (operator : Operator) : Forward (valuesOf operator) := by
  cases operator
  case isIn => exact valueList_forward
  case notIn => exact valueList_forward
  case present => exact Forward.throw _
  case absent => exact Forward.throw _
  all_goals exact singleValue_forward

/-- Reading a requirement never puts a lexeme back. -/
theorem requirement_forward : Forward requirement := by
  refine Forward.bind key_forward fun ⟨key, decided⟩ => ?_
  cases decided with
  | some operator => exact Forward.ofResult _
  | none =>
    exact Forward.bind operator_forward fun operator =>
      Forward.bind (valuesOf_forward operator) fun values => Forward.ofResult _

/-! ## Requirements between commas -/

/-- Whether a requirement can start with a lexeme. -/
def startsRequirement (lexeme : Lexeme) : Bool :=
  lexeme.token = .identifier || lexeme.token = .bang

/-- Takes what stands after a requirement that was read: a comma with the start of another in view,
or the end of the text. The requirements found stand newest first. -/
def afterRequirement (found : List Requirement) (read : Requirement) :
    Reading (Round (List Requirement) (List Requirement)) := do
  let separator ← takeWord
  match separator.token with
  | .endOfText => return .done (read :: found).reverse
  | .comma =>
    let following ← peekWord
    if startsRequirement following then
      return .again (read :: found)
    else
      reject following Expected.afterComma
  | _ => reject separator Expected.separator

/-- Reads a requirement and what stands after it, or finds the end of the text. -/
def requirementRound (found : List Requirement) :
    Reading (Round (List Requirement) (List Requirement)) := do
  let first ← peekWord
  if startsRequirement first then
    let read ← EStateM.adaptExcept Fault.inRequirement requirement
    afterRequirement found read
  else if first.token = .endOfText then
    return .done found.reverse
  else
    reject first Expected.start

/-- After a requirement, another round is asked for once a comma is taken. -/
theorem length_lt_of_afterRequirement {found found' : List Requirement} {read : Requirement}
    {tape after : Tape} (h : afterRequirement found read tape = .ok (.again found') after) :
    after.rest.length < tape.rest.length := by
  obtain ⟨separator, last, taken, h⟩ := bind_eq_ok.1 h
  cases ht : separator.token with
  | comma =>
    have shorter := length_lt_of_takeWord taken (by simp [ht])
    simp only [ht] at h
    obtain ⟨following, last, peeked, h⟩ := bind_eq_ok.1 h
    cases eq_of_peekWord peeked
    split at h <;> cases h
    exact shorter
  | _ =>
    simp only [ht] at h
    cases h

/-- A round of the list of requirements takes at least one lexeme before it asks for another. -/
theorem requirementRound_productive : Productive requirementRound := by
  intro found tape found' tape' h
  obtain ⟨first, after, peeked, h⟩ := bind_eq_ok.1 h
  cases eq_of_peekWord peeked
  split at h
  · obtain ⟨read, before, reading, h⟩ := bind_eq_ok.1 h
    have forward := Forward.adaptExcept Fault.inRequirement requirement_forward tape
    rw [reading] at forward
    exact Nat.lt_of_lt_of_le (length_lt_of_afterRequirement h) forward
  · split at h <;> cases h

/-- Reads all requirements of a text, in the order in which they stand. -/
def requirements : Reading (List Requirement) :=
  loop requirementRound requirementRound_productive []

end Parser

/-! ## Texts -/

/-- The lexemes of a text, unless one of them is unknown. -/
def scan (text : String) : Except Fault (List Lexeme) :=
  let lexemes := Lexeme.ofText text.toList
  match lexemes.find? fun lexeme => lexeme.token = .unknown with
  | some lexeme => .error (.unknownSymbol lexeme.literal)
  | none => .ok lexemes

/-- The requirements that a text lists, in the order in which they stand. -/
def parse (text : String) : Except Fault (List Requirement) := do
  let lexemes ← scan text
  Reading.outcome (Parser.requirements (.ofList lexemes))

end Requirement

end LabelSelector
