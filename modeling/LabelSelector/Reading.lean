/-
LabelSelector.Reading — reading a sequence of lexemes, one after another, with one in view.

A `Tape` holds the lexemes to come and counts those taken; past its end it goes on showing the end
of the text. A `Reading` is a computation on a tape that may fail, and that leaves the tape where
it stood when it failed. `loop` repeats a round as long as the round asks for it; it needs the
rounds that ask for another to take something off the tape (`Productive`), and that is why it ends.
-/
import LabelSelector.Fault
import LabelSelector.Lexeme

namespace LabelSelector

/-- Lexemes to come, and how many have been taken. -/
structure Tape where
  taken : Nat
  rest : List Lexeme
  deriving DecidableEq, Repr

namespace Tape

/-- The tape of some lexemes, none of them taken. -/
def ofList (lexemes : List Lexeme) : Tape :=
  ⟨0, lexemes⟩

/-- The lexeme in view; past the end of the tape, the end of the text. -/
def view (tape : Tape) : Lexeme :=
  tape.rest.headD .endOfText

/-- The tape after the lexeme in view has been taken. -/
def advance (tape : Tape) : Tape :=
  ⟨tape.taken + 1, tape.rest.tail⟩

@[simp] theorem rest_ofList (lexemes : List Lexeme) : (ofList lexemes).rest = lexemes :=
  rfl

@[simp] theorem rest_advance (tape : Tape) : tape.advance.rest = tape.rest.tail :=
  rfl

@[simp] theorem taken_advance (tape : Tape) : tape.advance.taken = tape.taken + 1 :=
  rfl

/-- Taking a lexeme never makes the tape longer. -/
theorem length_advance_le (tape : Tape) : tape.advance.rest.length ≤ tape.rest.length := by
  simp

/-- Taking a lexeme that is not the end of the text makes the tape shorter. -/
theorem length_advance_lt {tape : Tape} (h : tape.view.token ≠ .endOfText) :
    tape.advance.rest.length < tape.rest.length := by
  obtain ⟨taken, rest⟩ := tape
  cases rest with
  | nil => simp [view, Lexeme.endOfText] at h
  | cons lexeme rest => simp

end Tape

/-- A computation that reads a tape and may fail. -/
abbrev Reading (α : Type) :=
  EStateM Fault Tape α

/-- What a round of a loop decides. -/
inductive Round (α β : Type) where
  /-- Another round is wanted. -/
  | again (state : α)
  /-- The loop is done. -/
  | done (result : β)

namespace Reading

/-- The lexeme in view, as a word; it stays on the tape. -/
def peekWord : Reading Lexeme := fun tape =>
  .ok tape.view.asWord tape

/-- Takes the lexeme in view, as an operator. -/
def takeOperator : Reading Lexeme := fun tape =>
  .ok tape.view tape.advance

/-- Takes the lexeme in view, as a word. -/
def takeWord : Reading Lexeme := fun tape =>
  .ok tape.view.asWord tape.advance

/-- Fails at a lexeme that is not what was expected. -/
def reject {α : Type} (found : Lexeme) (expected : String) : Reading α :=
  throw (.unexpected found.literal expected)

/-- A result already at hand, as a reading that leaves the tape alone. -/
def ofResult {α : Type} : Except Fault α → Reading α
  | .ok value => pure value
  | .error fault => throw fault

/-- What a reading finds, without the tape it leaves. -/
def outcome {α : Type} : EStateM.Result Fault Tape α → Except Fault α
  | .ok value _ => .ok value
  | .error fault _ => .error fault

/-- The tape that a reading leaves, whether it fails or not. -/
def left {α : Type} : EStateM.Result Fault Tape α → Tape
  | .ok _ tape => tape
  | .error _ tape => tape

/-! ## Readings that put nothing back -/

/-- A reading never makes the tape longer, whether it fails or not. -/
def Forward {α : Type} (reading : Reading α) : Prop :=
  ∀ tape : Tape, (left (reading tape)).rest.length ≤ tape.rest.length

theorem Forward.pure {α : Type} (value : α) : Forward (Pure.pure value : Reading α) :=
  fun _ => Nat.le_refl _

theorem Forward.throw {α : Type} (fault : Fault) :
    Forward (MonadExcept.throw fault : Reading α) :=
  fun _ => Nat.le_refl _

theorem Forward.reject {α : Type} (found : Lexeme) (expected : String) :
    Forward (reject found expected : Reading α) :=
  Forward.throw _

theorem Forward.ofResult {α : Type} (result : Except Fault α) :
    Forward (ofResult result : Reading α) := by
  cases result with
  | ok value => exact Forward.pure value
  | error fault => exact Forward.throw fault

theorem Forward.peekWord : Forward peekWord :=
  fun _ => Nat.le_refl _

/-- Taking a lexeme that is not the end of the text makes the tape shorter. -/
theorem length_lt_of_takeWord {tape after : Tape} {lexeme : Lexeme}
    (h : takeWord tape = .ok lexeme after) (hne : lexeme.token ≠ .endOfText) :
    after.rest.length < tape.rest.length := by
  simp only [takeWord, EStateM.Result.ok.injEq] at h
  obtain ⟨rfl, rfl⟩ := h
  exact Tape.length_advance_lt fun ended => hne (Lexeme.asWord_token_eq_endOfText.2 ended)

/-- Looking at a lexeme leaves the tape alone. -/
theorem eq_of_peekWord {tape after : Tape} {lexeme : Lexeme}
    (h : peekWord tape = .ok lexeme after) : after = tape := by
  simp only [peekWord, EStateM.Result.ok.injEq] at h
  exact h.2.symm

theorem Forward.takeOperator : Forward takeOperator :=
  fun tape => tape.length_advance_le

theorem Forward.takeWord : Forward takeWord :=
  fun tape => tape.length_advance_le

/-- One reading after another, from a tape. -/
theorem bind_apply {α β : Type} (first : Reading α) (second : α → Reading β) (tape : Tape) :
    (first >>= second) tape =
      match first tape with
      | .ok value after => second value after
      | .error fault after => .error fault after := by
  simp only [bind, EStateM.bind]
  cases first tape <;> rfl

/-- One reading after another succeeds when both do in turn. -/
theorem bind_eq_ok {α β : Type} {first : Reading α} {second : α → Reading β} {tape last : Tape}
    {result : β} : (first >>= second) tape = .ok result last ↔
      ∃ value after, first tape = .ok value after ∧ second value after = .ok result last := by
  rw [bind_apply]
  cases first tape with
  | error fault after => simp
  | ok value after =>
    constructor
    · intro h
      exact ⟨value, after, rfl, h⟩
    · rintro ⟨_, _, same, h⟩
      cases same
      exact h

/-- One reading after another puts nothing back if neither does. -/
theorem Forward.bind {α β : Type} {first : Reading α} {second : α → Reading β}
    (hf : Forward first) (hs : ∀ value, Forward (second value)) : Forward (first >>= second) := by
  intro tape
  have h := hf tape
  rw [bind_apply]
  cases hr : first tape with
  | error fault after =>
    rw [hr] at h
    exact h
  | ok value after =>
    rw [hr] at h
    exact Nat.le_trans (hs value after) h

/-- Rewording the faults of a reading changes nothing about the tape. -/
theorem Forward.adaptExcept {α : Type} {reading : Reading α} (f : Fault → Fault)
    (h : Forward reading) : Forward (EStateM.adaptExcept f reading) := by
  intro tape
  have hr := h tape
  unfold EStateM.adaptExcept
  cases hrun : reading tape with
  | error fault after =>
    rw [hrun] at hr
    exact hr
  | ok value after =>
    rw [hrun] at hr
    exact hr

/-! ## Loops -/

/-- A round that asks for another has taken something off the tape. -/
def Productive {α β : Type} (round : α → Reading (Round α β)) : Prop :=
  ∀ state tape state' tape', round state tape = .ok (.again state') tape' →
    tape'.rest.length < tape.rest.length

/-- Repeats a round until it is done or fails. -/
def loop {α β : Type} (round : α → Reading (Round α β)) (productive : Productive round)
    (state : α) (tape : Tape) : EStateM.Result Fault Tape β :=
  match h : round state tape with
  | .ok (.done result) after => .ok result after
  | .ok (.again state') after =>
    have : after.rest.length < tape.rest.length := productive _ _ _ _ h
    loop round productive state' after
  | .error fault after => .error fault after
termination_by tape.rest.length

/-- A loop is one round, and the loop again if the round asks for it. -/
theorem loop_eq {α β : Type} {round : α → Reading (Round α β)} {productive : Productive round}
    (state : α) (tape : Tape) :
    loop round productive state tape =
      match round state tape with
      | .ok (.done result) after => .ok result after
      | .ok (.again state') after => loop round productive state' after
      | .error fault after => .error fault after := by
  rw [loop]
  split <;> simp_all

/-- A loop puts nothing back if its round does not. -/
theorem Forward.loop {α β : Type} {round : α → Reading (Round α β)}
    {productive : Productive round} (h : ∀ state, Forward (round state)) (state : α) :
    Forward (Reading.loop round productive state) := by
  intro tape
  induction hn : tape.rest.length using Nat.strongRecOn generalizing state tape with
  | ind n ih =>
    subst hn
    have hr := h state tape
    rw [loop_eq]
    cases hround : round state tape with
    | error fault after =>
      rw [hround] at hr
      exact hr
    | ok decision after =>
      rw [hround] at hr
      cases decision with
      | done result => exact hr
      | again state' =>
        have hlt := productive _ _ _ _ hround
        exact Nat.le_trans (ih _ hlt state' after rfl) hr

end Reading

end LabelSelector
